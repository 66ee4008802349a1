import ClassScript.Number.Layout

/-!
# JSON values and their text

The data format of tree listings. Objects keep their fields in the order in
which they were built; the text sorts them by name.
-/

namespace ClassScript

/-- A JSON value. Counts and general numbers are kept apart, since they are
written differently. -/
inductive Json where
  | null
  | bool (value : Bool)
  | count (value : Nat)
  | number (value : Binary64)
  | string (value : String)
  | array (items : List Json)
  | object (fields : List (String × Json))
deriving Inhabited

namespace Json

/-- An absent value is null. -/
def ofOption {α : Type} (f : α → Json) : Option α → Json
  | none => .null
  | some a => f a

/-- Numbers from `10 ^ -5` up to `10 ^ 16` are written in place and always with
a point; of two equally near decimals the even one is written. -/
def numberLayout : Binary64.Layout where
  tie := .even
  positional e := -5 ≤ e && e ≤ 15
  keepPoint := true

/-- The hexadecimal digits of `n`, at least `width` of them. -/
def hexDigits (width n : Nat) : List Char :=
  let digits := Nat.toDigits 16 n
  List.replicate (width - digits.length) '0' ++ digits

/-- One character of a quoted text. -/
def quotedChar (c : Char) : List Char :=
  match c with
  | '"' => ['\\', '"']
  | '\\' => ['\\', '\\']
  | '\n' => ['\\', 'n']
  | '\r' => ['\\', 'r']
  | '\t' => ['\\', 't']
  | '\x08' => ['\\', 'b']
  | '\x0c' => ['\\', 'f']
  | c => if c.toNat < 0x20 then ['\\', 'u'] ++ hexDigits 4 c.toNat else [c]

/-- A text between quotes. -/
def quoted (text : String) : String :=
  "\"" ++ String.ofList (text.toList.flatMap quotedChar) ++ "\""

/-- Lays out the entries of an array or object, one a line. -/
def bracketed (opening closing : String) (level : Nat) (entries : List String) : String :=
  let indent (n : Nat) : String := String.ofList (List.replicate (2 * n) ' ')
  if entries.isEmpty then opening ++ closing
  else
    opening ++ "\n" ++ indent (level + 1) ++ String.intercalate (",\n" ++ indent (level + 1)) entries
      ++ "\n" ++ indent level ++ closing

mutual

/-- The text of a value that stands `level` brackets deep: two blanks a level,
fields sorted by name. -/
def pretty (level : Nat) : Json → String
  | .null => "null"
  | .bool value => if value then "true" else "false"
  | .count value => toString value
  | .number value => if value.isFinite then value.format numberLayout else "null"
  | .string value => quoted value
  | .array items => bracketed "[" "]" level (prettyItems (level + 1) items)
  | .object fields =>
    let entries := (prettyFields (level + 1) fields).mergeSort (fun a b => a.1 ≤ b.1)
    bracketed "\x7b" "\x7d" level (entries.map fun entry => quoted entry.1 ++ ": " ++ entry.2)

@[inherit_doc pretty]
def prettyItems (level : Nat) : List Json → List String
  | [] => []
  | item :: items => pretty level item :: prettyItems level items

@[inherit_doc pretty]
def prettyFields (level : Nat) : List (String × Json) → List (String × String)
  | [] => []
  | (name, value) :: fields => (name, pretty level value) :: prettyFields level fields

end

end Json

end ClassScript
