import Mathlib.Data.List.Forall2
import ClassScript.Script.Session

/-!
# What a session writes

A session is a state that every emitter changes: its output grows, its level goes up
and down, its scope is set, extended and given up. All the same a program depends on
nothing that was done before it (`generate_after`).

The reason is one statement for each emitter. A statement inside a member writes the
lines that `stmtLines` lists for the level and the scope it finds, leaves the scope
that `stmtLines` leaves, and restores the level (`emitStmt_eq`). A part of a class
restores both (`Writes`). So a class written from level zero adds its `classLines` and
changes nothing else (`writes_class`), and a whole program is `program`
(`generate_eq`).
-/

namespace ClassScript.Script.Session

/-- The session with some more lines written. -/
def emit (s : Session) (lines : List Line) : Session :=
  s.write (renderLines s.options.indentWidth lines)

section

variable (s : Session)

@[simp] theorem emit_options (lines : List Line) : (s.emit lines).options = s.options := rfl

@[simp] theorem emit_level (lines : List Line) : (s.emit lines).level = s.level := rfl

@[simp] theorem emit_scope (lines : List Line) : (s.emit lines).scope = s.scope := rfl

@[simp] theorem emit_nil : s.emit [] = s := by
  simp [emit, write, renderLines]

/-- What is written one after the other. -/
@[simp] theorem emit_emit (as bs : List Line) : (s.emit as).emit bs = s.emit (as ++ bs) := by
  simp [emit, write, renderLines_append, String.append_assoc]

/-- A line is written at the level of the session. -/
@[simp] theorem writeLine_eq (text : String) : s.writeLine text = s.emit [.code s.level text] := by
  simp [writeLine, endLine, emit, write, renderLines, Line.render, String.append_assoc]

@[simp] theorem endLine_eq : s.endLine = s.emit [.blank] := by
  simp [endLine, emit, write, renderLines, Line.render]

@[simp] theorem enter_level (scope : Scope) : (s.enter scope).level = s.level := rfl

@[simp] theorem indent_level : s.indent.level = s.level + 1 := rfl

/-- Lines can be written before the scope is set as well as after. -/
@[simp] theorem enter_emit (scope : Scope) (lines : List Line) :
    (s.enter scope).emit lines = (s.emit lines).enter scope := rfl

@[simp] theorem indent_emit (lines : List Line) : s.indent.emit lines = (s.emit lines).indent := rfl

@[simp] theorem indent_enter (scope : Scope) :
    s.indent.enter scope = (s.enter scope).indent := rfl

/-- A level is entered and left again. -/
@[simp] theorem dedent_indent : s.indent.dedent = s := rfl

@[simp] theorem enter_enter (a b : Scope) : (s.enter a).enter b = s.enter b := rfl

@[simp] theorem leave_enter (scope : Scope) : (s.enter scope).leave = s.leave := rfl

theorem enter_of_scope {scope : Scope} (h : s.scope = some scope) : s.enter scope = s := by
  rw [enter, ← h]

/-- Inside of a member a declaration reaches the scope. -/
theorem declareLocal_of_scope {scope : Scope} (h : s.scope = some scope) (name : String) :
    s.declareLocal name = s.enter (scope.declare name) := by
  rw [declareLocal, h]
  rfl

theorem leave_of_scope (h : s.scope = none) : s.leave = s := by
  rw [leave, ← h]

end

/-! ### Statements -/

mutual

/-- A statement writes its lines and leaves the level as it was. -/
theorem emitStmt_eq (s : Session) {scope : Scope} (h : s.scope = some scope) (statement : Stmt) :
    s.emitStmt statement =
      (s.emit (stmtLines s.level scope statement).1).enter
        (stmtLines s.level scope statement).2 := by
  cases statement with
  | block body span =>
    have hbody := emitStmts_eq (s.writeLine "\x7b").indent h body
    rw [emitStmt, hbody]
    simp [stmtLines]
  | expression e span => simp [emitStmt, stmtLines, exprText, h, enter_of_scope]
  | «variable» type name value span =>
    cases value with
    | none => simp [emitStmt, stmtLines, declareLocal_of_scope s h]
    | some value => simp [emitStmt, stmtLines, declareLocal_of_scope s h, exprText, h]
  | «return» value span =>
    cases value with
    | none => simp [emitStmt, stmtLines, h, enter_of_scope]
    | some value => simp [emitStmt, stmtLines, exprText, h, enter_of_scope]
  | unsupported construct span => simp [emitStmt, stmtLines, h, enter_of_scope]

/-- The scope that one statement leaves is the scope of the next. -/
theorem emitStmts_eq (s : Session) {scope : Scope} (h : s.scope = some scope)
    (statements : List Stmt) :
    s.emitStmts statements =
      (s.emit (stmtsLines s.level scope statements).1).enter
        (stmtsLines s.level scope statements).2 := by
  cases statements with
  | nil => simp [emitStmts, stmtsLines, enter_of_scope, h]
  | cons statement statements =>
    rw [emitStmts, emitStmt_eq s h statement, emitStmts_eq _ rfl statements]
    simp [stmtsLines]

end

/-! ### Inside a member -/

/-- In the given scope, `f` writes the given lines. It may leave another scope, but
the level as it was. -/
def WritesIn (level : Nat) (scope : Scope) (f : Session → Session) (lines : List Line) : Prop :=
  ∀ s : Session, s.level = level → s.scope = some scope →
    ∃ scope', f s = (s.emit lines).enter scope'

/-- The locals of a body stay in scope behind it, until the member ends. -/
theorem writesIn_body (level : Nat) (scope : Scope) (block : Block) :
    WritesIn level scope (·.emitBody block) (bodyLines level scope block) := by
  intro s hlevel h
  subst hlevel
  exact ⟨_, emitStmts_eq s h block.body⟩

theorem writesIn_line (level : Nat) (scope : Scope) (text : String) :
    WritesIn level scope (·.writeLine text) [.code level text] := by
  intro s hlevel h
  subst hlevel
  exists scope
  rw [enter_of_scope (s.emit _) h]
  exact writeLine_eq s text

section

variable (s : Session) {scope : Scope} (h : s.scope = some scope)

include h

/-- The parameters are written in the scope of the session. -/
theorem parametersText_eq (parameters : List Parameter) :
    s.parametersText parameters = Script.parametersText scope parameters := by
  have hone : s.parameterText = Script.parameterText scope := by
    funext p
    rw [parameterText, Script.parameterText]
    cases p.defaultValue <;> simp [exprText, h]
  rw [parametersText, Script.parametersText, hone]

theorem slotValue_eq (slot : Slot) : s.slotValue slot = slot.value scope := by
  rw [slotValue, Slot.value]
  cases slot.initializer <;> simp [exprText, h]

/-- By induction on the slots, one line for each. -/
theorem emitSlots_eq (owner : String) (slots : List Slot) :
    s.emitSlots owner slots = s.emit (slots.map fun slot =>
      .code s.level (owner ++ slot.name ++ " = " ++ slot.value scope ++ ";")) := by
  induction slots generalizing s with
  | nil => simp [emitSlots]
  | cons slot slots ih =>
    have hrest := ih (s.writeLine (owner ++ slot.name ++ " = " ++ s.slotValue slot ++ ";")) h
    simp only [emitSlots, List.foldl_cons] at hrest ⊢
    rw [hrest]
    simp [slotValue_eq s h]

/-- What is written for a chained call depends on whether there is a base class. -/
theorem emitChain_eq (hasBase : Bool) (chain : Option ConstructorChain) :
    s.emitChain hasBase chain = s.emit (chainLines s.level scope hasBase chain) := by
  cases chain with
  | none => cases hasBase <;> simp [emitChain, chainLines]
  | some chain =>
    obtain ⟨target, arguments, span⟩ := chain
    cases target <;> cases hasBase <;> simp [emitChain, chainLines, argumentsText, h]

end

/-! ### Parts of a class -/

/-- Outside of members, `f` writes the given lines and changes nothing else. -/
def Writes (level : Nat) (f : Session → Session) (lines : List Line) : Prop :=
  ∀ s : Session, s.level = level → s.scope = none → f s = s.emit lines

/-- Two emitters one after the other. -/
theorem Writes.append {level : Nat} {f g : Session → Session} {as bs : List Line}
    (hf : Writes level f as) (hg : Writes level g bs) :
    Writes level (fun s => g (f s)) (as ++ bs) := by
  intro s hlevel hscope
  calc g (f s)
    _ = g (s.emit as) := by rw [hf s hlevel hscope]
    _ = (s.emit as).emit bs := hg (s.emit as) hlevel hscope
    _ = s.emit (as ++ bs) := emit_emit s as bs

theorem writes_line (level : Nat) (text : String) :
    Writes level (·.writeLine text) [.code level text] := by
  intro s hlevel _
  subst hlevel
  exact writeLine_eq s text

theorem writes_blank (level : Nat) : Writes level (·.endLine) [.blank] :=
  fun s _ _ => endLine_eq s

/-- The lines between two braces are written one level further in. -/
theorem Writes.indented {level : Nat} {f : Session → Session} {lines : List Line}
    (hf : Writes (level + 1) f lines) : Writes level (fun s => (f s.indent).dedent) lines := by
  intro s hlevel hscope
  exact congrArg dedent (hf s.indent (congrArg (· + 1) hlevel) hscope)

/-- A member sets the scope for its body and gives it up at the end, so whatever the
body declares is forgotten. -/
theorem writes_braced {level : Nat} {scope : Scope} {header : Session → String}
    {body : Session → Session} {text : String} {lines : List Line}
    (hheader : ∀ s : Session, s.scope = some scope → header s = text)
    (hbody : WritesIn (level + 1) scope body lines) :
    Writes level (·.emitBraced scope header body)
      (.code level (text ++ "\x7b") :: lines ++ [.code level "\x7d"]) := by
  intro s hlevel hscope
  subst hlevel
  have ⟨scope', hinner⟩ := hbody ((s.enter scope).writeLine (text ++ "\x7b")).indent rfl rfl
  simp only [emitBraced, hheader (s.enter scope) rfl, hinner]
  simp [leave_of_scope, hscope]

/-- The scope of a constructor is given up behind it. -/
theorem writes_constructor (level : Nat) (c : ClassDecl) (k : Constructor) :
    Writes level (·.emitConstructor c k) (constructorLines level c k) := by
  simp only [emitConstructor, constructorLines]
  generalize (Scope.ofClass c).declareParameters k.parameters = scope
  have hbody : WritesIn (level + 1) scope
      (fun s => (s.emitChain c.baseClass.isSome k.chain).emitBody k.body)
      (chainLines (level + 1) scope c.baseClass.isSome k.chain
        ++ bodyLines (level + 1) scope k.body) := by
    intro s hlevel h
    have ⟨scope', hinner⟩ := writesIn_body (level + 1) scope k.body
      (s.emit (chainLines (level + 1) scope c.baseClass.isSome k.chain)) hlevel h
    exists scope'
    simpa [emitChain_eq s h, hlevel] using hinner
  have hheader : ∀ s : Session, s.scope = some scope →
      "constructor(" ++ s.parametersText k.parameters ++ ") " =
        "constructor(" ++ Script.parametersText scope k.parameters ++ ") " := by
    intro s h
    rw [parametersText_eq s h]
  have hbraced := writes_braced hheader hbody
  simpa [String.append_assoc] using hbraced

/-- So is that of a method. -/
theorem writes_method (level : Nat) (c : ClassDecl) (m : Method) :
    Writes level (·.emitMethod c m) (methodLines level c m) := by
  simp only [emitMethod, methodLines]
  generalize (Scope.ofClass c).declareParameters m.parameters = scope
  have hheader : ∀ s : Session, s.scope = some scope →
      staticWord m.isStatic ++ m.name ++ "(" ++ s.parametersText m.parameters ++ ") " =
        staticWord m.isStatic ++ m.name ++ "(" ++ Script.parametersText scope m.parameters
          ++ ") " := by
    intro s h
    rw [parametersText_eq s h]
  cases m.body with
  | none =>
    have hbraced := writes_braced hheader (writesIn_line (level + 1) scope
      ("throw new Error(\"" ++ c.name ++ "." ++ m.name ++ " is not implemented\");"))
    simpa [String.append_assoc] using hbraced
  | some block =>
    have hbraced := writes_braced hheader (writesIn_body (level + 1) scope block)
    simpa [String.append_assoc] using hbraced

/-- The accessors of a property need no scope. -/
theorem writes_accessors (level : Nat) (p : Property) :
    Writes level (·.emitAccessors p) (accessorLines level p) := by
  intro s hlevel _
  subst hlevel
  simp [emitAccessors, emitAccessor, accessorLines]

/-- Slots set the scope for their first values and give it up at the end. -/
theorem writes_slots (level : Nat) (c : ClassDecl) (owner : String) (slots : List Slot) :
    Writes level (fun s => ((s.enter (Scope.ofClass c)).emitSlots owner slots).leave)
      (slots.map fun slot =>
        .code level (owner ++ slot.name ++ " = " ++ slot.value (Scope.ofClass c) ++ ";")) := by
  intro s hlevel hscope
  subst hlevel
  simp [emitSlots_eq (s.enter (Scope.ofClass c)) rfl, leave_of_scope, hscope]

/-! ### Classes -/

/-- By induction on the sections, with a blank line before each but the first. -/
theorem writes_sections {level : Nat} {emitters : List (Session → Session)}
    {sections : List (List Line)} (h : List.Forall₂ (Writes level) emitters sections) :
    Writes level (·.emitSections emitters) (separated sections) := by
  induction h with
  | nil => exact fun s _ _ => (emit_nil s).symm
  | @cons f lines fs sections hf hrest ih =>
    cases hrest with
    | nil => exact hf
    | cons hg hrest => exact hf.append ((writes_blank level).append ih)

/-- An emitter for each of several parts. -/
theorem writes_each {α : Type} {level : Nat} {emitter : α → Session → Session}
    {lines : α → List Line} (h : ∀ a, Writes level (emitter a) (lines a)) (as : List α) :
    List.Forall₂ (Writes level) (as.map emitter) (as.map lines) := by
  rw [List.forall₂_map_left_iff, List.forall₂_map_right_iff, List.forall₂_same]
  exact fun a _ => h a

/-- Section for section, the emitters of a class write what the class consists of. -/
theorem writes_classSections (level : Nat) (c : ClassDecl) :
    List.Forall₂ (Writes level) (classSections c) (Script.classSections level c) := by
  have hslots : List.Forall₂ (Writes level)
      (if (instanceSlots c).isEmpty then [] else [fun s => s.emitInstanceSlots c])
      (slotSection level c) := by
    have hwrites : Writes level (·.emitInstanceSlots c) _ :=
      writes_slots level c "" (instanceSlots c)
    rw [slotSection]
    cases hslots : instanceSlots c with
    | nil => exact .nil
    | cons slot slots =>
      rw [hslots] at hwrites
      simpa using hwrites
  have hconstructor := writes_each (writes_constructor level c) (instanceConstructor? c).toList
  have haccessors := writes_each (writes_accessors level) c.properties
  have hmethods := writes_each (writes_method level c) c.methods
  exact List.rel_append (List.rel_append (List.rel_append hslots hconstructor) haccessors) hmethods

/-- What stands behind the class is written at level zero. -/
theorem writes_statics (c : ClassDecl) : Writes 0 (·.emitStatics c) (staticLines c) := by
  have hslots := writes_slots 0 c (c.name ++ ".") (staticSlots c)
  simp only [emitStatics, staticLines]
  cases staticConstructor? c with
  | none => simpa using hslots
  | some k =>
    have hblock : Writes 0 (·.emitBraced (Scope.ofClass c) (fun _ => "") (·.emitBody k.body)) _ :=
      writes_braced (fun _ _ => rfl) (writesIn_body 1 (Scope.ofClass c) k.body)
    simpa using hslots.append hblock

/-- A class writes its lines, from level zero and outside of any scope, and returns
there. -/
theorem writes_class (c : ClassDecl) : Writes 0 (·.emitClass c) (classLines c) := by
  have hsections := (writes_sections (writes_classSections 1 c)).indented
  have hclass := ((writes_line 0 (classHeader c)).append hsections).append
    ((writes_line 0 "\x7d").append (writes_statics c))
  simpa [emitClass, classLines] using hclass

/-! ### Programs -/

/-- By induction on the classes, with a blank line before each. -/
theorem writes_classes (classes : List ClassDecl) :
    Writes 0 (·.emitClasses classes) (classesLines classes) := by
  induction classes with
  | nil => exact fun s _ _ => (emit_nil s).symm
  | cons c classes ih =>
    have hclasses := ((writes_blank 0).append (writes_class c)).append ih
    simpa [emitClasses, classesLines] using hclasses

theorem writes_header (unit : CompilationUnit) :
    Writes 0 (·.emitHeader unit) (headerLines unit) := by
  intro s hlevel _
  simp only [emitHeader, headerLines]
  cases unit.namespaceName <;> simp [hlevel]

theorem writes_entry (unit : CompilationUnit) :
    Writes 0 (·.emitEntry unit) (entryLines unit) := by
  intro s hlevel _
  simp only [emitEntry, entryLines]
  cases entryClass? unit <;> simp [hlevel]

theorem emitSupport_eq (s : Session) (features : Features) :
    s.emitSupport features = s.write (supportText features) := by
  obtain ⟨interop, dom⟩ := features
  cases interop <;> cases dom <;>
    simp [emitSupport, supportText, endLine, write, String.append_assoc]

/-- What is written only if `b`. -/
theorem Writes.write_ite {f : Session → Session} {lines : List Line} (hf : Writes 0 f lines)
    (b : Bool) (s : Session) (hlevel : s.level = 0) (hscope : s.scope = none) :
    (if b then f s else s) =
      s.write (if b then renderLines s.options.indentWidth lines else "") := by
  cases b with
  | false => simp [write]
  | true => exact hf s hlevel hscope

/-- A program is written from level zero and outside of classes. -/
theorem emitProgram_eq {s : Session} (hlevel : s.level = 0) (hscope : s.scope = none)
    (unit : CompilationUnit) : s.emitProgram unit = s.write (program s.options unit) := by
  have hheader := (writes_header unit).write_ite s.options.emitHeader s hlevel hscope
  simp only [emitProgram, hheader, emitSupport_eq]
  -- From here on only the output differs from that of `s`.
  generalize hopened : (s.write _).write (supportText (.ofUnit unit)) = opened
  have hlevel' : opened.level = 0 := by rw [← hopened]; exact hlevel
  have hscope' : opened.scope = none := by rw [← hopened]; exact hscope
  have hclasses : opened.emitClasses unit.classes = opened.emit (classesLines unit.classes) :=
    writes_classes unit.classes opened hlevel' hscope'
  have hentry := (writes_entry unit).write_ite opened.options.invokeMain
    (opened.emit (classesLines unit.classes)) hlevel' hscope'
  rw [hclasses, emit_options, hentry, ← hopened]
  simp [emit, write, program, String.append_assoc]

/-- A session writes the program of a unit whatever it did before, and ends as a new
one. -/
theorem generate_eq (s : Session) (unit : CompilationUnit) :
    s.generate unit = (program s.options unit, start s.options) := by
  simp only [generate]
  rw [emitProgram_eq rfl rfl]
  simp [write, start]

/-! ### Histories -/

/-- What can be done with a session. -/
inductive Call where
  | generate (unit : CompilationUnit)
  | writeLine (text : String)
  | indent
  | dedent
  | declareLocal (name : String)

/-- The session after a call. -/
def call (s : Session) : Call → Session
  | .generate unit => (s.generate unit).2
  | .writeLine text => s.writeLine text
  | .indent => s.indent
  | .dedent => s.dedent
  | .declareLocal name => s.declareLocal name

/-- The session after calls, one after another. -/
def after (s : Session) (calls : List Call) : Session :=
  calls.foldl call s

/-- No call changes the options. -/
theorem call_options (s : Session) (c : Call) : (s.call c).options = s.options := by
  cases c with
  | generate unit => rw [call, generate_eq]; rfl
  | _ => rfl

/-- By induction on the calls. -/
theorem after_options (s : Session) (calls : List Call) :
    (s.after calls).options = s.options := by
  induction calls generalizing s with
  | nil => rfl
  | cons c calls ih =>
    calc ((s.call c).after calls).options
      _ = (s.call c).options := ih (s.call c)
      _ = s.options := call_options s c

/-- The text of a class, with `width` blanks a level. -/
def classText (width : Nat) (c : ClassDecl) : String :=
  renderLines width (classLines c)

theorem renderLines_classesLines (width : Nat) (classes : List ClassDecl) :
    renderLines width (classesLines classes) =
      String.join (classes.map fun c => "\n" ++ classText width c) := by
  induction classes with
  | nil => rfl
  | cons c classes ih =>
    have hcons : classesLines (c :: classes) =
        .blank :: (classLines c ++ classesLines classes) := by
      simp [classesLines]
    rw [hcons, renderLines, renderLines_append, ih, List.map_cons, String.join_cons, classText,
      Line.render, String.append_assoc]

/-- After any history a session writes what a new one writes. Class for class that is a
text of the class alone, and the session is left with an empty output, at level zero
and without a scope. -/
theorem generate_after (options : Options) (calls : List Call) (unit : CompilationUnit) :
    ((start options).after calls).generate unit = (start options).generate unit ∧
    (start options).generate unit =
      ((if options.emitHeader then renderLines options.indentWidth (headerLines unit) else "")
        ++ consoleSupport
        ++ (if (Features.ofUnit unit).interop then "\n" ++ interopSupport else "")
        ++ (if (Features.ofUnit unit).dom then "\n" ++ domSupport else "")
        ++ String.join (unit.classes.map fun c => "\n" ++ classText options.indentWidth c)
        ++ (if options.invokeMain then renderLines options.indentWidth (entryLines unit) else ""),
       ⟨options, "", 0, none⟩) := by
  constructor
  · rw [generate_eq, generate_eq, after_options]
  · have hoptions : (start options).options = options := rfl
    rw [generate_eq, hoptions, ← renderLines_classesLines]
    simp only [program, supportText, start, String.append_assoc]

end ClassScript.Script.Session
