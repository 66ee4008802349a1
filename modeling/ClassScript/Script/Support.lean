import ClassScript.Dom

/-!
# Support code

The fixed parts of a script. The console stand-in is always there: text written
without a line end is held back until the next line end. The bridge to the host
and the bridge to the page are there if the unit uses them.
-/

namespace ClassScript.Script

/-- Lines of text, each with a line end. -/
def unlines : List String → String
  | [] => ""
  | line :: lines => line ++ "\n" ++ unlines lines

/-- The console of the source language. -/
def consoleLines : List String :=
  ["const Console = \x7b",
   "    __pending: \"\",",
   "    WriteLine(...args) \x7b",
   "        if (this.__pending === \"\") \x7b",
   "            console.log(...args);",
   "            return;",
   "        \x7d",
   "        const line = this.__pending + args.map(String).join(\" \");",
   "        this.__pending = \"\";",
   "        console.log(line);",
   "    \x7d,",
   "    Write(...args) \x7b",
   "        this.__pending += args.map(String).join(\" \");",
   "    \x7d,",
   "\x7d;"]

/-- Calls and assignments that reach out to the host. -/
def interopLines : List String :=
  ["const __Interop = \x7b",
   "    unwrap(value) \x7b",
   "        return value !== null && typeof value === \"object\" && \"__element\" in value",
   "            ? value.__element",
   "            : value;",
   "    \x7d,",
   "    call(path, ...args) \x7b",
   "        const parts = path.split(\".\");",
   "        let owner = globalThis;",
   "        for (const part of parts.slice(0, -1)) \x7b",
   "            owner = owner[part];",
   "            if (owner === undefined || owner === null) \x7b",
   "                throw new Error(`JS.Call: cannot resolve \"${path}\"`);",
   "            \x7d",
   "        \x7d",
   "        const target = owner[parts[parts.length - 1]];",
   "        if (typeof target !== \"function\") \x7b",
   "            throw new Error(`JS.Call: \"${path}\" is not a function`);",
   "        \x7d",
   "        return target.apply(owner, args.map(__Interop.unwrap));",
   "    \x7d,",
   "    set(target, property, value) \x7b",
   "        __Interop.unwrap(target)[property] = __Interop.unwrap(value);",
   "        return value;",
   "    \x7d,",
   "\x7d;"]

/-- The bridge to the page, up to its list of element types. -/
def domHeadLines : List String :=
  ["const __Dom = (() => \x7b",
   "    class DomElement \x7b",
   "        constructor(tag, children) \x7b",
   "            this.__element = document.createElement(tag);",
   "            for (const child of children) \x7b",
   "                this.__element.append(unwrap(child));",
   "            \x7d",
   "        \x7d",
   "    \x7d",
   "    const unwrap = (value) => (value instanceof DomElement ? value.__element : value);",
   "    const element = (tag) =>",
   "        class extends DomElement \x7b",
   "            constructor(...children) \x7b",
   "                super(tag, children);",
   "            \x7d",
   "        \x7d;",
   "    return \x7b",
   "        unwrap,",
   "        invoke(target, method, ...args) \x7b",
   "            const receiver = unwrap(target);",
   "            return receiver[method](...args.map(unwrap));",
   "        \x7d,"]

/-- The bridge to the page, after its list of element types. -/
def domTailLines : List String :=
  ["    \x7d;",
   "\x7d)();"]

/-- The line of the bridge for an element type. -/
def domElementLine (entry : String × String) : String :=
  "        " ++ entry.1 ++ ": element(\"" ++ entry.2 ++ "\"),"

/-- The console stand-in. -/
def consoleSupport : String := unlines consoleLines

/-- The bridge to the host. -/
def interopSupport : String := unlines interopLines

/-- The bridge to the page, with a class for every element type. -/
def domSupport : String :=
  unlines (domHeadLines ++ Dom.elements.map domElementLine ++ domTailLines)

end ClassScript.Script
