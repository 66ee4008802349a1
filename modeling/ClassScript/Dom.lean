import ClassScript.Text.Lowercase

/-!
# Elements of the document

The closed set of types whose values are elements of a page. `new` applied to
one of them makes an element, and members of such values follow the naming
convention of the page, not the one of the source language.
-/

namespace ClassScript.Dom

/-- The element types, each with the tag that it is made with. -/
def elements : List (String × String) :=
  [("HTMLElement", "div"),
   ("HTMLDivElement", "div"),
   ("HTMLSpanElement", "span"),
   ("HTMLParagraphElement", "p"),
   ("HTMLHeadingElement", "h1"),
   ("HTMLButtonElement", "button"),
   ("HTMLInputElement", "input"),
   ("HTMLTextAreaElement", "textarea"),
   ("HTMLSelectElement", "select"),
   ("HTMLLabelElement", "label"),
   ("HTMLFormElement", "form"),
   ("HTMLAnchorElement", "a"),
   ("HTMLImageElement", "img"),
   ("HTMLCanvasElement", "canvas"),
   ("HTMLUListElement", "ul"),
   ("HTMLLIElement", "li")]

/-- The tag of an element type. -/
def tag? (name : String) : Option String :=
  elements.lookup name

/-- Is `name` an element type? -/
def isElement (name : String) : Bool :=
  (tag? name).isSome

/-- The name of a member on the page: the first letter in lower case. -/
def memberName (name : String) : String :=
  match name.toList with
  | [] => ""
  | c :: cs => String.ofList (Text.lowercase c ++ cs)

end ClassScript.Dom
