import Calynda.Lib.CString

/-!
# The demangler

A mangled symbol is a method name, a separator, a qualifier, markers and a list of types. The
cursor is the text that remains in front of the terminator. Reading or copying behind it, and a
length that exceeds an `int`, are faults.
-/

namespace Calynda.Decompiler

open CString

inductive Fault where
  /-- a length or a dimension exceeds an `int` -/
  | overflow
  /-- bytes behind the terminator are copied -/
  | beyond
  /-- the recursion is deeper than the text is long -/
  | fuel
  deriving DecidableEq, Repr

/-- What a parser returns: a value with the text that remains, zero, or a fault. No caller looks
at the cursor of a parser that returned zero. -/
inductive Parse (α : Type) where
  | ok (out : α) (rest : List Char)
  | fail
  | fault (f : Fault)
  deriving DecidableEq, Repr

namespace Parse

def bind {α β : Type} (p : Parse α) (f : α → List Char → Parse β) : Parse β :=
  match p with
  | ok out rest => f out rest
  | fail => fail
  | fault e => fault e

variable {α β : Type}

@[simp] theorem bind_ok (out : α) (rest : List Char) (f : α → List Char → Parse β) :
    (ok out rest).bind f = f out rest := rfl

@[simp] theorem bind_fault (e : Fault) (f : α → List Char → Parse β) :
    (fault e : Parse α).bind f = fault e := rfl

end Parse

/-! ## Types -/

/-- Digits added to a number, none where it exceeds an `int`; with the text behind them. -/
def readInt (n : Nat) : List Char → Option (Nat × List Char)
  | [] => some (n, [])
  | c :: s =>
    if c.isDigit then
      if intMax < n * 10 + (c.toNat - 48) then none else readInt (n * 10 + (c.toNat - 48)) s
    else some (n, c :: s)

def dmgParseName (n : Nat) (s : List Char) : Parse (List Char) :=
  match readInt 0 s with
  | none => .fault .overflow
  | some (len, rest) =>
    if len = 0 ∨ n ≤ len then .fail
    else if rest.length < len then .fault .beyond
    else .ok (rest.take len) (rest.drop len)

/-- The components of a qualifier, behind `qual`. -/
def dmgComponents (isFirst : Bool) (qual : List Char) : Nat → List Char → Parse (List Char)
  | 0, s => .ok qual s
  | count + 1, s =>
    (dmgParseName 128 s).bind fun comp rest =>
      let qual := if isFirst then qual else strncat 256 qual "::".toList
      dmgComponents false (strncat 256 qual comp) count rest

def primName (c : Char) : Option (List Char) :=
  match c with
  | 'v' => some "void".toList
  | 'b' => some "bool".toList
  | 'c' => some "char".toList
  | 'w' => some "wchar_t".toList
  | 's' => some "short".toList
  | 'i' => some "int".toList
  | 'l' => some "long".toList
  | 'x' => some "long long".toList
  | 'f' => some "float".toList
  | 'd' => some "double".toList
  | 'e' => some "...".toList
  | _ => none

/-- One more type behind a list of them. -/
def addArg (args t : List Char) : List Char :=
  strncat 384 (if args = [] then args else strncat 384 args ", ".toList) t

mutual

/-- A type into a buffer of `n` bytes. -/
def dmgParseType : Nat → Nat → List Char → Parse (List Char)
  | 0, _, _ => .fault .fuel
  | fuel + 1, n, s =>
    if n = 0 then .fail
    else
      match s with
      | [] => .fail
      | c :: s =>
        if c = 'P' ∨ c = 'R' then
          (dmgParseType fuel 256 s).bind fun inner rest =>
            .ok (snprintf n (inner ++ [if c = 'P' then '*' else '&'])) rest
        else if c = 'C' ∨ c = 'V' then
          (dmgParseType fuel 256 s).bind fun inner rest =>
            .ok (snprintf n
              ((if c = 'C' then "const ".toList else "volatile ".toList) ++ inner)) rest
        else if c = 'U' ∨ c = 'S' then
          (dmgParseType fuel 128 s).bind fun inner rest =>
            .ok (snprintf n
              ((if c = 'U' then "unsigned ".toList else "signed ".toList) ++ inner)) rest
        else if c = 'A' then
          match readInt 0 s with
          | none => .fault .overflow
          | some (dim, '_' :: s) =>
            (dmgParseType fuel 128 s).bind fun inner rest =>
              .ok (snprintf n (inner ++ '[' :: Nat.toDigits 10 dim ++ [']'])) rest
          | some _ => .fail
        else if c = 'F' then
          (dmgFnArgs fuel [] s).bind fun args rest =>
            match rest with
            | '_' :: rest =>
              (dmgParseType fuel 128 rest).bind fun ret rest =>
                .ok (snprintf n (ret ++ "(*)(".toList ++ args ++ ")".toList)) rest
            | rest => .ok (snprintf n ("void".toList ++ "(*)(".toList ++ args ++ ")".toList)) rest
        else if c = 'Q' then
          match s with
          | d :: s =>
            if '1' ≤ d ∧ d ≤ '9' then
              (dmgComponents true [] (d.toNat - 48) s).bind fun qual rest =>
                .ok (snprintf n qual) rest
            else .fail
          | [] => .fail
        else if c.isDigit then dmgParseName n (c :: s)
        else
          match primName c with
          | some name => .ok (snprintf n name) s
          | none => .fail

/-- The arguments of a function pointer, up to the return type or the end. -/
def dmgFnArgs : Nat → List Char → List Char → Parse (List Char)
  | 0, _, _ => .fault .fuel
  | _ + 1, args, [] => .ok args []
  | fuel + 1, args, c :: s =>
    if c = '_' then .ok args (c :: s)
    else
      (dmgParseType fuel 128 (c :: s)).bind fun t rest => dmgFnArgs fuel (addArg args t) rest

end

theorem dmgParseType_nil (fuel n : Nat) : dmgParseType (fuel + 1) n [] = .fail := by
  rw [dmgParseType.eq_def]
  exact ite_self _

@[simp] theorem dmgFnArgs_nil (fuel : Nat) (args : List Char) :
    dmgFnArgs (fuel + 1) args [] = .ok args [] := by
  rw [dmgFnArgs.eq_def]

@[simp] theorem dmgFnArgs_underscore (fuel : Nat) (args s : List Char) :
    dmgFnArgs (fuel + 1) args ('_' :: s) = .ok args ('_' :: s) := by
  rw [dmgFnArgs.eq_def]
  exact if_pos rfl

theorem dmgFnArgs_cons (fuel : Nat) (args : List Char) {c : Char} (hc : c ≠ '_') (s : List Char) :
    dmgFnArgs (fuel + 1) args (c :: s) =
      (dmgParseType fuel 128 (c :: s)).bind fun t rest => dmgFnArgs fuel (addArg args t) rest := by
  rw [dmgFnArgs.eq_def]
  exact if_neg hc

/-- Enough fuel for the types of a text. -/
def typeFuel (s : List Char) : Nat := 2 * s.length + 2

/-! ## Symbols -/

/-- A separator: `__` in front of F, Q or a length. -/
def isSplit : List Char → Bool
  | '_' :: '_' :: c :: _ => c = 'F' || c = 'Q' || ('1' ≤ c && c ≤ '9')
  | _ => false

/-- The text in front of the first separator, and the text from there on. -/
def findSplitFrom : List Char → Option (List Char × List Char)
  | [] => none
  | c :: s =>
    if isSplit (c :: s) then some ([], c :: s)
    else (findSplitFrom s).map fun (before, sep) => (c :: before, sep)

def findSplit : List Char → Option (List Char × List Char)
  | '_' :: '_' :: s => (findSplitFrom s).map fun (before, sep) => ('_' :: '_' :: before, sep)
  | s => findSplitFrom s

/-- The text behind the last character `c`, the whole text without one. -/
def afterLast (c : Char) (s : List Char) : List Char := (s.reverse.takeWhile (· ≠ c)).reverse

def lastComponent (n : Nat) (qual : List Char) : List Char := snprintf n (afterLast ':' qual)

inductive CwSymbolKind where
  | regular
  | ctor
  | dtor
  | operator
  | free
  deriving DecidableEq, Repr

structure CwDemangled where
  ok : Bool := false
  kind : CwSymbolKind := .regular
  qualifier : List Char := []
  method : List Char := []
  args : List Char := []
  pretty : List Char := []
  deriving DecidableEq, Repr

def kOps : List (String × String) :=
  [("pl", "+"), ("mi", "-"), ("ml", "*"), ("dv", "/"), ("md", "%"), ("as", "="), ("eq", "=="),
    ("ne", "!="), ("lt", "<"), ("gt", ">"), ("le", "<="), ("ge", ">="), ("ls", "<<"),
    ("rs", ">>"), ("or", "|"), ("an", "&"), ("er", "^"), ("aa", "&&"), ("oo", "||"), ("nt", "!"),
    ("co", "~"), ("pp", "++"), ("mm", "--"), ("cl", "()"), ("vc", "[]"), ("rf", "->"),
    ("rm", "->*"), ("nw", " new"), ("dl", " delete"), ("nwa", " new[]"), ("dla", " delete[]"),
    ("apl", "+="), ("ami", "-="), ("aml", "*="), ("adv", "/="), ("amd", "%="), ("als", "<<="),
    ("ars", ">>="), ("aor", "|="), ("aan", "&="), ("aer", "^="), ("ad", "&"), ("cm", ",")]

def cwOperator (mnemonic : List Char) : Option (List Char) :=
  (kOps.find? fun op => op.1.toList = mnemonic).map fun op => op.2.toList

/-- The types behind F; a type that does not parse ends them. -/
def cwArgs : Nat → List Char → List Char → Parse (List Char)
  | 0, _, _ => .fault .fuel
  | _ + 1, args, [] => .ok args []
  | fuel + 1, args, c :: s =>
    if c = '_' then .ok args (c :: s)
    else
      match dmgParseType fuel 128 (c :: s) with
      | .ok t rest => cwArgs fuel (addArg args t) rest
      | .fail => .ok args (c :: s)
      | .fault f => .fault f

/-- The kind of a method and its name as it is printed. -/
def classify (name qualifier : List Char) : CwSymbolKind × List Char :=
  if name = "__ct".toList ∧ qualifier ≠ [] then (.ctor, lastComponent 128 qualifier)
  else if name = "__dt".toList ∧ qualifier ≠ [] then
    (.dtor, snprintf 128 ('~' :: lastComponent 96 qualifier))
  else
    let plain := snprintf 128 name
    let (kind, method) := match name with
      | '_' :: '_' :: c :: op =>
        match cwOperator (c :: op) with
        | some glyph => (CwSymbolKind.operator, snprintf 128 ("operator".toList ++ glyph))
        | none => (.regular, plain)
      | _ => (.regular, plain)
    (if qualifier = [] ∧ kind = .regular then .free else kind, method)

/-- The text from the markers on, after the method name and the qualifier. -/
def cwSignature (verbatim name qualifier rest : List Char) : Except Fault CwDemangled :=
  let marks := rest.takeWhile fun c => c = 'C' ∨ c = 'V'
  match rest.dropWhile fun c => c = 'C' ∨ c = 'V' with
  | 'F' :: rest =>
    match cwArgs (typeFuel rest) [] rest with
    | .ok args _ =>
      let args := if args = [] then "void".toList else args
      let printed := snprintf 512 ('(' :: args ++ [')'])
      let (kind, method) := classify name qualifier
      let suffix := (if 'C' ∈ marks then " const".toList else []) ++
        (if 'V' ∈ marks then " volatile".toList else [])
      let pretty :=
        if qualifier ≠ [] then qualifier ++ "::".toList ++ method ++ printed ++ suffix
        else method ++ printed ++ suffix
      .ok { ok := true, kind := kind, qualifier := qualifier, method := method,
            args := printed, pretty := snprintf 1024 pretty }
    | .fail => .ok { qualifier := qualifier, pretty := verbatim }
    | .fault f => .error f
  | _ => .ok { qualifier := qualifier, pretty := verbatim }

def cwDemangle (mangled : List Char) : Except Fault CwDemangled :=
  let verbatim := snprintf 1024 mangled
  match findSplit mangled with
  | none => .ok { pretty := verbatim }
  | some (name, sep) =>
    if name.length = 0 ∨ 128 ≤ name.length then .ok { pretty := verbatim }
    else
      let rest := sep.drop 2
      match rest with
      | c :: _ =>
        if c = 'Q' ∨ ('1' ≤ c ∧ c ≤ '9') then
          match dmgParseType (typeFuel rest) 256 rest with
          | .ok qualifier rest => cwSignature verbatim name qualifier rest
          | .fail => .ok { pretty := verbatim }
          | .fault f => .error f
        else cwSignature verbatim name [] rest
      | [] => cwSignature verbatim name [] rest

/-! ## Packages and bindings -/

def kNs : List (String × String) :=
  [("EGG", "egg"), ("nw4r", "nw4r"), ("NW4R", "nw4r"), ("JSystem", "jsystem"),
    ("JUtility", "jutility"), ("JKernel", "jkernel"), ("JMath", "jmath"), ("JGadget", "jgadget"),
    ("JSUtility", "jsutility")]

/-- `tolower` in the C locale. -/
def lowerByte (c : Char) : Char := if 'A' ≤ c ∧ c ≤ 'Z' then Char.ofNat (c.toNat + 32) else c

def pkgForHead (n : Nat) (head : List Char) : List Char :=
  match kNs.find? fun ns => ns.1.toList = head with
  | some ns => snprintf n ns.2.toList
  | none => (head.map lowerByte).take (n - 1)

/-- The components of `p`, behind `used`. -/
def pathFrom (n : Nat) : Nat → Bool → List Char → List Char → List Char
  | 0, _, used, _ => used
  | fuel + 1, isFirst, used, p =>
    let p := p.dropWhile (· = ':')
    if p = [] then used
    else
      let comp := (p.takeWhile (· ≠ ':')).take 95
      let piece := if isFirst then pkgForHead 96 comp else snprintf 96 comp
      let need := piece.length + (if isFirst then 0 else 1)
      if n ≤ used.length + need + 1 then used
      else
        pathFrom n fuel false (used ++ (if isFirst then [] else ['.']) ++ piece)
          (p.dropWhile (· ≠ ':'))

def cwToCalyndaPath (n : Nat) (qualifier : List Char) : List Char :=
  pathFrom n (qualifier.length + 1) true [] qualifier

def kOpIdent : List (String × String) :=
  [("pl", "plus"), ("mi", "minus"), ("ml", "mul"), ("dv", "div"), ("md", "mod"),
    ("as", "assign"), ("eq", "eq"), ("ne", "ne"), ("lt", "lt"), ("gt", "gt"), ("le", "le"),
    ("ge", "ge"), ("ls", "shl"), ("rs", "shr"), ("or", "bor"), ("an", "band"), ("er", "bxor"),
    ("aa", "land"), ("oo", "lor"), ("nt", "lnot"), ("co", "bnot"), ("pp", "inc"), ("mm", "dec"),
    ("cl", "call"), ("vc", "index"), ("rf", "arrow"), ("rm", "arrow_star"), ("nw", "new"),
    ("dl", "delete"), ("apl", "add_assign"), ("ami", "sub_assign"), ("aml", "mul_assign"),
    ("adv", "div_assign"), ("ad", "addr"), ("cm", "comma")]

def opIdent (method : List Char) : Option (List Char) :=
  if "operator".toList.isPrefixOf method then
    (kOpIdent.find? fun op => cwOperator op.1.toList = some (method.drop 8)).map fun op =>
      op.2.toList
  else none

def cwToCalyndaBinding (n : Nat) (d : CwDemangled) : List Char :=
  let pkg := cwToCalyndaPath 256 d.qualifier
  let sep := if pkg = [] then [] else ['.']
  snprintf n <|
    match d.kind with
    | .ctor => pkg ++ sep ++ "new".toList
    | .dtor => pkg ++ sep ++ "drop".toList
    | .operator => pkg ++ sep ++ (opIdent d.method).getD d.method
    | .free => d.method
    | .regular => pkg ++ sep ++ d.method

/-! ## The package of a symbol -/

/-- The package that `emit_symbol_package` writes into a buffer of `n` bytes. -/
def emitSymbolPackage (n : Nat) (raw : List Char) : Except Fault (List Char) :=
  match strstr "::".toList (raw.dropWhile (· = '_')) with
  | some (before, _) => .ok ((snprintf n before).map lowerByte)
  | none =>
    match strstr "__".toList raw with
    | none => .ok (snprintf n "main".toList)
    | some (_, dd) =>
      match dd.drop 2 with
      | [] => .ok (snprintf n "main".toList)
      | c :: s =>
        if c.isDigit then
          match readInt 0 (c :: s) with
          | none => .error .overflow
          | some (len, q) =>
            if 0 < len ∧ q ≠ [] then
              let cp := if len < n then len else n - 1
              if q.length + 1 < cp then .error .beyond
              else .ok ((q.take cp).map lowerByte)
            else .ok (snprintf n "main".toList)
        else .ok (snprintf n "main".toList)

end Calynda.Decompiler
