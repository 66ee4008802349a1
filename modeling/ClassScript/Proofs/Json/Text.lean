import ClassScript.Proofs.Json.Canonical
import ClassScript.Proofs.Number.Layout
import ClassScript.Proofs.Script.Quoting

/-!
# The text of a value tells the value

Two values with the same text are the same up to the order of their fields and up to numbers
that are not finite: they have the same canonical form (`canonical_eq_of_pretty_eq`).

The texts are compared from the left, with other text after them (`Readable`). A quoted text
and a bracketed one end with themselves. A word or a number ends where something comes that
cannot belong to it, and what comes is a comma, a line end or nothing (`Stops`).
-/

namespace ClassScript.Json

/-! ### Quoted texts -/

/-- The character that a backslash and `e` stand for together. -/
def escaped? (e : Char) : Option Char :=
  match e with
  | 'b' => some '\x08'
  | 'f' => some '\x0c'
  | e => Script.shortEscape? e

/-- The first character that a quoted text stands for, and what follows it. There is none
before the closing quote. -/
def unquoted? : List Char → Option (Char × List Char)
  | '\\' :: 'u' :: w :: x :: y :: z :: rest =>
    (Script.hexNumber? [w, x, y, z]).map fun code => (.ofNat code, rest)
  | '\\' :: e :: rest => (escaped? e).map (·, rest)
  | '"' :: _ => none
  | c :: rest => some (c, rest)
  | [] => none

/-- A control character without a short escape is written by four digits. -/
theorem unquoted?_control {c : Char} (hc : c.toNat < 0x20) (rest : List Char) :
    unquoted? (['\\', 'u'] ++ hexDigits 4 c.toNat ++ rest) = some (c, rest) := by
  obtain ⟨w, x, y, z, htext, hnumber⟩ := Script.unicodeEscape_eq (show c.toNat < 0x10000 by omega)
  have hdigits : ['\\', 'u'] ++ hexDigits 4 c.toNat = ['\\', 'u', w, x, y, z] := htext
  rw [hdigits]
  simp [unquoted?, hnumber]

/-- A character can be read from the way it is written, whatever follows. -/
theorem unquoted?_quotedChar (c : Char) (rest : List Char) :
    unquoted? (quotedChar c ++ rest) = some (c, rest) := by
  unfold quotedChar
  split
  iterate 7 exact rfl
  rename_i hquote hback _ _ _ _ _
  split
  · rename_i hcontrol
    exact unquoted?_control hcontrol rest
  · unfold unquoted?
    grind

/-- By induction on the characters. The closing quote is no character of the text. -/
theorem quotedChars_append_inj {cs ds r s : List Char}
    (h : cs.flatMap quotedChar ++ '"' :: r = ds.flatMap quotedChar ++ '"' :: s) :
    cs = ds ∧ r = s := by
  induction cs generalizing ds with
  | nil =>
    cases ds with
    | nil => exact ⟨rfl, List.tail_eq_of_cons_eq h⟩
    | cons d ds =>
      have hread := congrArg unquoted? h
      rw [List.flatMap_cons, List.append_assoc, unquoted?_quotedChar] at hread
      cases hread
  | cons c cs ih =>
    cases ds with
    | nil =>
      have hread := congrArg unquoted? h
      rw [List.flatMap_cons, List.append_assoc, unquoted?_quotedChar] at hread
      cases hread
    | cons d ds =>
      have hread := congrArg unquoted? h
      rw [List.flatMap_cons, List.flatMap_cons, List.append_assoc, List.append_assoc,
        unquoted?_quotedChar, unquoted?_quotedChar] at hread
      obtain ⟨rfl, hrest⟩ := Prod.mk.inj (Option.some.inj hread)
      obtain ⟨rfl, hrs⟩ := ih hrest
      exact ⟨rfl, hrs⟩

/-- A quoted text tells where it ends. -/
theorem quoted_append_inj {a b : String} {r s : List Char}
    (h : (quoted a).toList ++ r = (quoted b).toList ++ s) : a = b ∧ r = s := by
  have hquoted : ∀ (t : String) (rest : List Char),
      (quoted t).toList ++ rest = '"' :: (t.toList.flatMap quotedChar ++ '"' :: rest) := by
    intro t rest
    simp [quoted]
  rw [hquoted, hquoted] at h
  obtain ⟨hchars, hrest⟩ := quotedChars_append_inj (List.tail_eq_of_cons_eq h)
  exact ⟨String.toList_inj.1 hchars, hrest⟩

/-! ### Words and numbers -/

/-- Can the character stand in a word or a number? -/
def isScalarChar (c : Char) : Bool :=
  c.isAlphanum || c = '.' || c = '+' || c = '-'

/-- Is the value neither text nor made of others? -/
def isScalar : Json → Bool
  | .null | .bool _ | .count _ | .number _ => true
  | .string _ | .array _ | .object _ => false

/-- The value that a word or a number stands for. Digits alone are a count. -/
def scalarOf (text : String) : Json :=
  if text = "null" then .null
  else if text = "true" then .bool true
  else if text = "false" then .bool false
  else if text.toList.all Char.isDigit then .count (Binary64.digitsValue text.toList)
  else (Binary64.ofText? text).elim .null .number

theorem isScalarChar_of_isDigit {c : Char} (h : c.isDigit = true) : isScalarChar c = true := by
  simp [isScalarChar, Char.isAlphanum, h]

/-- A digit or a sign begins none of the three words. -/
theorem scalarOf_of_head {text : String} {c : Char} {cs : List Char} (h : text.toList = c :: cs)
    (hc : c.isDigit = true ∨ c = '-') :
    scalarOf text = if text.toList.all Char.isDigit then .count (Binary64.digitsValue text.toList)
      else (Binary64.ofText? text).elim .null .number := by
  have hword : ∀ d ds, d.isDigit = false → d ≠ '-' → text ≠ String.ofList (d :: ds) := by
    intro d ds hd hminus heq
    rw [heq, String.toList_ofList] at h
    cases h
    rcases hc with hc | hc
    · rw [hc] at hd
      cases hd
    · exact hminus hc
  have hnull : text ≠ "null" := hword 'n' ['u', 'l', 'l'] rfl (by decide)
  have htrue : text ≠ "true" := hword 't' ['r', 'u', 'e'] rfl (by decide)
  have hfalse : text ≠ "false" := hword 'f' ['a', 'l', 's', 'e'] rfl (by decide)
  rw [scalarOf, if_neg hnull, if_neg htrue, if_neg hfalse]

theorem toList_toString (n : Nat) : (toString n).toList = Nat.toDigits 10 n := by
  rw [Nat.toString_eq_ofList_toDigits, String.toList_ofList]

/-- A count is written by its digits, which are read as a count. -/
theorem scalarOf_count (n : Nat) : scalarOf (toString n) = .count n := by
  have hall := Binary64.Numeral.isDigit_toDigits n
  obtain ⟨c, cs, hcs⟩ := List.exists_cons_of_ne_nil (Nat.toDigits_ne_nil (b := 10) (n := n))
  have hc : c.isDigit = true := hall c (by simp [hcs])
  rw [scalarOf_of_head ((toList_toString n).trans hcs) (.inl hc), toList_toString,
    if_pos (List.all_eq_true.2 hall), Binary64.Numeral.digitsValue_toDigits]

/-- A number begins with a digit or a sign. -/
theorem head_format {x : Binary64} (hx : x.isFinite = true) :
    ∃ c cs, (x.format numberLayout).toList = c :: cs ∧ (c.isDigit = true ∨ c = '-') := by
  obtain ⟨n, hformat, -, -⟩ := Binary64.exists_numeral_format numberLayout hx
  obtain ⟨c, cs, hcs, hc⟩ := n.exists_text_eq
  rw [hformat]
  cases x.negative with
  | false => exact ⟨c, cs, hcs, .inl hc⟩
  | true => exact ⟨'-', n.text, rfl, .inr rfl⟩

/-- A number has a point or an exponent, and can so be told from a count. -/
theorem scalarOf_number {x : Binary64} (hx : x.isFinite = true) :
    scalarOf (x.format numberLayout) = .number x := by
  obtain ⟨n, hformat, -, hpoint⟩ := Binary64.exists_numeral_format numberLayout hx
  obtain ⟨c, cs, hcs, hc⟩ := head_format hx
  have hall : ¬(x.format numberLayout).toList.all Char.isDigit = true := by
    intro hall
    obtain ⟨d, hd, hnot⟩ := Binary64.Numeral.exists_mem_text (hpoint rfl)
    have hdigit := List.all_eq_true.1 hall d (by rw [hformat]; exact List.mem_append_right _ hd)
    rw [hdigit] at hnot
    cases hnot
  rw [scalarOf_of_head hcs hc, if_neg hall, Binary64.ofText?_format numberLayout hx]
  rfl

/-- The text of a word or a number tells its value. -/
theorem scalarOf_pretty {j : Json} (hj : j.isScalar = true) (level : Nat) :
    scalarOf (j.pretty level) = j.canonical := by
  cases j with
  | null => rfl
  | bool value => cases value <;> rfl
  | count value => exact scalarOf_count value
  | number value =>
    unfold pretty canonical
    split
    · rename_i hfinite
      exact scalarOf_number hfinite
    · rfl
  | string value => cases hj
  | array items => cases hj
  | object fields => cases hj

theorem isScalarChar_of_mem_format {x : Binary64} (hx : x.isFinite = true) :
    ∀ c ∈ (x.format numberLayout).toList, isScalarChar c = true := by
  obtain ⟨n, hformat, -, -⟩ := Binary64.exists_numeral_format numberLayout hx
  intro c hc
  rw [hformat] at hc
  rcases List.mem_append.1 hc with hc | hc
  · have hminus : c = '-' := by
      split at hc
      · exact List.mem_singleton.1 hc
      · cases hc
    rw [hminus]
    decide
  · rcases Binary64.Numeral.mem_text hc with hc | hc
    · exact isScalarChar_of_isDigit hc
    · exact List.all_eq_true.1 (show ['.', 'e', '+', '-'].all isScalarChar = true by decide) c hc

/-- A word or a number has no blank, no quote and no bracket. -/
theorem isScalarChar_of_mem_pretty {j : Json} (hj : j.isScalar = true) (level : Nat) :
    ∀ c ∈ (j.pretty level).toList, isScalarChar c = true := by
  have hnull : ∀ c ∈ "null".toList, isScalarChar c = true :=
    List.all_eq_true.1 (by decide)
  have htrue : ∀ c ∈ "true".toList, isScalarChar c = true :=
    List.all_eq_true.1 (by decide)
  have hfalse : ∀ c ∈ "false".toList, isScalarChar c = true :=
    List.all_eq_true.1 (by decide)
  cases j with
  | null => exact hnull
  | bool value =>
    cases value with
    | false => exact hfalse
    | true => exact htrue
  | count value =>
    intro c hc
    have hdigits : c ∈ (toString value).toList := hc
    rw [toList_toString] at hdigits
    exact isScalarChar_of_isDigit (Binary64.Numeral.isDigit_toDigits value c hdigits)
  | number value =>
    unfold pretty
    split
    · rename_i hfinite
      exact isScalarChar_of_mem_format hfinite
    · exact hnull
  | string value => cases hj
  | array items => cases hj
  | object fields => cases hj

/-! ### What follows a value -/

/-- The rest does not go on with a word or a number. -/
def Stops (rest : List Char) : Prop :=
  ∀ c ∈ rest.head?, isScalarChar c = false

theorem stops_cons {c : Char} (hc : isScalarChar c = false) (rest : List Char) :
    Stops (c :: rest) := by
  intro d hd
  cases hd
  exact hc

/-- So a word or a number is taken off as a whole. -/
theorem span_scalar {text rest : List Char} (htext : ∀ c ∈ text, isScalarChar c = true)
    (hrest : Stops rest) :
    (text ++ rest).takeWhile isScalarChar = text ∧
      (text ++ rest).dropWhile isScalarChar = rest := by
  rw [List.takeWhile_append_of_pos htext, List.dropWhile_append_of_pos htext]
  cases rest with
  | nil => simp
  | cons c rest => simp [hrest c rfl]

/-- With other text after it, the text of `a` tells the value of `a`, and where it ends. -/
def Readable {α β : Type} (text : α → List Char) (value : α → β) (a : α) : Prop :=
  ∀ b r s, Stops r → Stops s → text a ++ r = text b ++ s → value a = value b ∧ r = s

/-! ### Entries between brackets -/

/-- The blanks before an entry. -/
def blanks (level : Nat) : List Char :=
  List.replicate (2 * level) ' '

/-- What follows an entry: the others and the closing bracket. -/
def laterText (closing : Char) (level : Nat) : List (List Char) → List Char
  | [] => '\n' :: (blanks level ++ [closing])
  | entry :: entries =>
    ',' :: '\n' :: (blanks (level + 1) ++ entry ++ laterText closing level entries)

/-- What follows the opening bracket. -/
def entriesText (closing : Char) (level : Nat) : List (List Char) → List Char
  | [] => [closing]
  | entry :: entries => '\n' :: (blanks (level + 1) ++ entry ++ laterText closing level entries)

/-- The separator stands before each entry but the first. -/
theorem intercalate_eq_flatMap (sep first : List Char) (others : List (List Char)) :
    sep.intercalate (first :: others) = first ++ others.flatMap (sep ++ ·) := by
  induction others generalizing first with
  | nil => simp
  | cons second others ih =>
    rw [List.intercalate_cons_cons, ih, List.flatMap_cons, List.append_assoc, List.append_assoc]

theorem laterText_eq (closing : Char) (level : Nat) (entries : List (List Char)) :
    laterText closing level entries =
      entries.flatMap ((',' :: '\n' :: blanks (level + 1)) ++ ·) ++
        '\n' :: (blanks level ++ [closing]) := by
  induction entries with
  | nil => rfl
  | cons entry entries ih => simp [laterText, ih]

/-- The text between brackets as it is read, from the left. -/
theorem toList_bracketed (opening closing : Char) (level : Nat) (entries : List String) :
    (bracketed (.ofList [opening]) (.ofList [closing]) level entries).toList =
      opening :: entriesText closing level (entries.map String.toList) := by
  unfold bracketed
  cases entries with
  | nil => simp [entriesText]
  | cons entry entries =>
    simp [entriesText, laterText_eq, String.toList_intercalate, intercalate_eq_flatMap, blanks]

section

variable {α β : Type} {text : α → List Char} {value : α → β} {closing : Char} {level : Nat}

/-- An entry is followed by a comma or a new line. -/
theorem stops_laterText (entries : List (List Char)) (rest : List Char) :
    Stops (laterText closing level entries ++ rest) := by
  cases entries with
  | nil => exact stops_cons (by decide) _
  | cons entry entries => exact stops_cons (by decide) _

/-- By induction on the entries. A comma is told apart from the new line before the bracket. -/
theorem laterText_append_inj {as bs : List α} {r s : List Char}
    (has : ∀ a ∈ as, Readable text value a)
    (h : laterText closing level (as.map text) ++ r = laterText closing level (bs.map text) ++ s) :
    as.map value = bs.map value ∧ r = s := by
  induction as generalizing bs with
  | nil =>
    cases bs with
    | nil => exact ⟨rfl, List.append_cancel_left h⟩
    | cons b bs => cases (List.cons.inj h).1
  | cons a as ih =>
    cases bs with
    | nil => cases (List.cons.inj h).1
    | cons b bs =>
      obtain ⟨ha, has⟩ := List.forall_mem_cons.1 has
      simp only [List.map_cons, laterText, List.cons_append, List.append_assoc] at h
      have hentry := List.append_cancel_left (List.cons.inj (List.cons.inj h).2).2
      obtain ⟨hvalue, hlater⟩ :=
        ha b _ _ (stops_laterText _ r) (stops_laterText _ s) hentry
      obtain ⟨hvalues, hrest⟩ := ih has hlater
      rw [List.map_cons, List.map_cons, hvalue, hvalues]
      exact ⟨rfl, hrest⟩

/-- The same from the opening bracket on. Without an entry, the closing one follows it at once. -/
theorem entriesText_append_inj (hclosing : closing ≠ '\n') {as bs : List α} {r s : List Char}
    (has : ∀ a ∈ as, Readable text value a)
    (h : entriesText closing level (as.map text) ++ r =
      entriesText closing level (bs.map text) ++ s) :
    as.map value = bs.map value ∧ r = s := by
  cases as with
  | nil =>
    cases bs with
    | nil => exact ⟨rfl, List.append_cancel_left h⟩
    | cons b bs => exact absurd (List.cons.inj h).1 hclosing
  | cons a as =>
    cases bs with
    | nil => exact absurd (List.cons.inj h).1.symm hclosing
    | cons b bs =>
      -- With a comma before them, the entries are ones that follow another.
      apply laterText_append_inj has
      exact congrArg (',' :: ·) h

end

/-! ### Values -/

/-- The fields in the order in which they are written. -/
def sorted (fields : List (String × Json)) : List (String × Json) :=
  fields.mergeSort fun a b => a.1 ≤ b.1

/-- Fields are sorted by their names, so their values may change before or after. -/
theorem mergeSort_map {α : Type} (f : Json → α) (fields : List (String × Json)) :
    (fields.map fun field => (field.1, f field.2)).mergeSort (fun a b => a.1 ≤ b.1) =
      (sorted fields).map fun field => (field.1, f field.2) := by
  symm
  apply List.map_mergeSort
  intro a _ b _
  rfl

/-- The text of a field. -/
def fieldText (level : Nat) (field : String × Json) : List Char :=
  (quoted field.1 ++ ": " ++ pretty level field.2).toList

theorem prettyItems_eq_map (level : Nat) (items : List Json) :
    prettyItems level items = items.map (pretty level) := by
  induction items with
  | nil => rfl
  | cons item items ih => rw [prettyItems, ih, List.map_cons]

theorem prettyFields_eq_map (level : Nat) (fields : List (String × Json)) :
    prettyFields level fields = fields.map fun field => (field.1, pretty level field.2) := by
  induction fields with
  | nil => rfl
  | cons field fields ih => rw [prettyFields, ih, List.map_cons]

/-- The text of an array, as entries between brackets. -/
theorem toList_pretty_array (level : Nat) (items : List Json) :
    (pretty level (.array items)).toList =
      '[' :: entriesText ']' level (items.map fun item => (pretty (level + 1) item).toList) := by
  have hbracketed := toList_bracketed '[' ']' level (prettyItems (level + 1) items)
  rw [prettyItems_eq_map, List.map_map] at hbracketed
  rw [pretty, prettyItems_eq_map]
  exact hbracketed

/-- The text of an object, whose entries are sorted. -/
theorem toList_pretty_object (level : Nat) (fields : List (String × Json)) :
    (pretty level (.object fields)).toList =
      '{' :: entriesText '}' level ((sorted fields).map (fieldText (level + 1))) := by
  have hbracketed := toList_bracketed '{' '}' level
    ((sorted fields).map fun field => quoted field.1 ++ ": " ++ pretty (level + 1) field.2)
  rw [List.map_map] at hbracketed
  rw [pretty, prettyFields_eq_map, mergeSort_map, List.map_map]
  exact hbracketed

theorem canonical_object (fields : List (String × Json)) :
    (object fields).canonical =
      .object ((sorted fields).map fun field => (field.1, field.2.canonical)) := by
  rw [canonical, canonicalFields_eq_map, mergeSort_map]

theorem pretty_ne_nil {j : Json} (hj : j.isScalar = true) (level : Nat) :
    (j.pretty level).toList ≠ [] := by
  have hnull : "null".toList ≠ [] := by decide
  have htrue : "true".toList ≠ [] := by decide
  have hfalse : "false".toList ≠ [] := by decide
  cases j with
  | null => exact hnull
  | bool value =>
    cases value with
    | false => exact hfalse
    | true => exact htrue
  | count value =>
    show (toString value).toList ≠ []
    rw [toList_toString]
    exact Nat.toDigits_ne_nil
  | number value =>
    unfold pretty
    split
    · rename_i hfinite
      obtain ⟨c, cs, hcs, -⟩ := head_format hfinite
      rw [hcs]
      exact nofun
    · exact hnull
  | string value => cases hj
  | array items => cases hj
  | object fields => cases hj

/-- The character that a text or a bracketed value begins with. -/
def opening? : Json → Option Char
  | .string _ => some '"'
  | .array _ => some '['
  | .object _ => some '{'
  | .null | .bool _ | .count _ | .number _ => none

/-- The first character tells a text and the two sorts of brackets from all else. -/
theorem opening?_eq (level : Nat) (j : Json) (rest : List Char) :
    ((j.pretty level).toList ++ rest).head?.filter (!isScalarChar ·) = j.opening? := by
  cases hj : j.isScalar with
  | true =>
    have hnone : j.opening? = none := by
      cases j <;> first | rfl | cases hj
    obtain ⟨c, cs, hcs⟩ := List.exists_cons_of_ne_nil (pretty_ne_nil hj level)
    have hc : isScalarChar c = true := isScalarChar_of_mem_pretty hj level c (by simp [hcs])
    rw [hnone, hcs]
    simp [hc]
  | false =>
    cases j with
    | string text => simp [pretty, quoted, opening?, isScalarChar]
    | array items =>
      rw [toList_pretty_array]
      rfl
    | object fields =>
      rw [toList_pretty_object]
      rfl
    | _ => cases hj

theorem opening?_eq_of_append_eq {level : Nat} {j k : Json} {r s : List Char}
    (h : (j.pretty level).toList ++ r = (k.pretty level).toList ++ s) :
    j.opening? = k.opening? := by
  rw [← opening?_eq level j r, h, opening?_eq]

/-- The text of the value tells its canonical form. -/
def Reads (j : Json) : Prop :=
  ∀ level, Readable (fun k => (k.pretty level).toList) canonical j

/-- A word or a number is read as a whole, and then by its characters. -/
theorem reads_scalar {j : Json} (hj : j.isScalar = true) : j.Reads := by
  intro level k r s hr hs h
  have hopening := opening?_eq_of_append_eq h
  have hk : k.isScalar = true := by
    cases j <;> cases k <;> simp_all [isScalar, opening?]
  obtain ⟨htake, hdrop⟩ := span_scalar (isScalarChar_of_mem_pretty hj level) hr
  obtain ⟨htake', hdrop'⟩ := span_scalar (isScalarChar_of_mem_pretty hk level) hs
  have htext : j.pretty level = k.pretty level :=
    String.toList_inj.1 (by rw [← htake, ← htake', h])
  rw [← scalarOf_pretty hj level, ← scalarOf_pretty hk level, htext, ← hdrop, ← hdrop', h]
  exact ⟨rfl, rfl⟩

theorem reads_string (text : String) : (string text).Reads := by
  intro level k r s _ _ h
  have hopening := opening?_eq_of_append_eq h
  cases k with
  | string text' =>
    obtain ⟨rfl, hrest⟩ := quoted_append_inj h
    exact ⟨rfl, hrest⟩
  | _ => simp [opening?] at hopening

/-- The text of an array is read entry by entry. -/
theorem reads_array {items : List Json} (hitems : ∀ item ∈ items, item.Reads) :
    (array items).Reads := by
  intro level k r s _ _ h
  have hopening := opening?_eq_of_append_eq h
  cases k with
  | array items' =>
    dsimp only at h
    rw [toList_pretty_array, toList_pretty_array] at h
    obtain ⟨hvalues, hrest⟩ := entriesText_append_inj (by decide)
      (fun item hitem => hitems item hitem (level + 1)) (List.cons.inj h).2
    rw [canonical, canonical, canonicalItems_eq_map, canonicalItems_eq_map, hvalues]
    exact ⟨rfl, hrest⟩
  | _ => simp [opening?] at hopening

/-- The name of a field ends with itself, so that the text of a field tells both parts. -/
theorem readable_field {field : String × Json} (hfield : field.2.Reads) (level : Nat) :
    Readable (fieldText level) (fun f => (f.1, f.2.canonical)) field := by
  intro field' r s hr hs h
  have hparts : ∀ (f : String × Json) (rest : List Char),
      fieldText level f ++ rest =
        (quoted f.1).toList ++ (':' :: ' ' :: ((f.2.pretty level).toList ++ rest)) := by
    intro f rest
    simp [fieldText]
  rw [hparts, hparts] at h
  obtain ⟨hname, hvalue⟩ := quoted_append_inj h
  obtain ⟨hcanonical, hrest⟩ := hfield level field'.2 r s hr hs (by simpa using hvalue)
  exact ⟨Prod.ext hname hcanonical, hrest⟩

/-- The text of an object is read field by field, in sorted order. -/
theorem reads_object {fields : List (String × Json)} (hfields : ∀ field ∈ fields, field.2.Reads) :
    (object fields).Reads := by
  intro level k r s _ _ h
  have hopening := opening?_eq_of_append_eq h
  cases k with
  | object fields' =>
    dsimp only at h
    rw [toList_pretty_object, toList_pretty_object] at h
    have hsorted : ∀ field ∈ sorted fields,
        Readable (fieldText (level + 1)) (fun f => (f.1, f.2.canonical)) field := by
      intro field hfield
      exact readable_field (hfields field (List.mem_mergeSort.1 hfield)) (level + 1)
    obtain ⟨hvalues, hrest⟩ := entriesText_append_inj (by decide) hsorted (List.cons.inj h).2
    rw [canonical_object, canonical_object, hvalues]
    exact ⟨rfl, hrest⟩
  | _ => simp [opening?] at hopening

mutual

/-- Every text tells its value, by induction on the value. -/
theorem reads : (j : Json) → j.Reads
  | .null => reads_scalar rfl
  | .bool _ => reads_scalar rfl
  | .count _ => reads_scalar rfl
  | .number _ => reads_scalar rfl
  | .string text => reads_string text
  | .array items => reads_array (reads_items items)
  | .object fields => reads_object (reads_fields fields)

theorem reads_items : (items : List Json) → ∀ item ∈ items, item.Reads
  | [] => nofun
  | item :: items => List.forall_mem_cons.2 ⟨reads item, reads_items items⟩

theorem reads_fields : (fields : List (String × Json)) → ∀ field ∈ fields, field.2.Reads
  | [] => nofun
  | (_, value) :: fields => List.forall_mem_cons.2 ⟨reads value, reads_fields fields⟩

end

/-- Values with the same text are the same up to the order of fields and up to numbers that are
not finite. -/
theorem canonical_eq_of_pretty_eq {level : Nat} {j k : Json}
    (h : j.pretty level = k.pretty level) : j.canonical = k.canonical := by
  have hstops : Stops [] := nofun
  exact (j.reads level k [] [] hstops hstops (by simp [h])).1

end ClassScript.Json
