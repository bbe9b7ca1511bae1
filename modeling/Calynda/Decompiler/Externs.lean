import Calynda.Decompiler.Demangle
import Calynda.Decompiler.EmitFunction
import Calynda.Tokenizer.Next

/-!
# The inventory of externs

The symbols of the SDK with their modules, names and signatures. The type of a parameter is
translated from the text that the demangler printed: from its first function pointer, its stars at
the end, and a prefix that is the name of a primitive.
-/

namespace Calynda.Decompiler

open CString FormatText

/-! ## Types -/

def isSpace (c : Char) : Bool :=
  c = ' ' || c = '\t' || c = '\n' || c = '\r' || c = '\x0b' || c = '\x0c'

def trim (s : List Char) : List Char :=
  ((s.reverse.dropWhile isSpace).reverse).dropWhile isSpace

def kPrims : List (String × String) :=
  [("unsigned long long", "u64"), ("signed long long", "i64"), ("unsigned long", "u32"),
    ("signed long", "i32"), ("unsigned int", "u32"), ("signed int", "i32"),
    ("unsigned short", "u16"), ("signed short", "i16"), ("unsigned char", "u8"),
    ("signed char", "i8"), ("long long", "i64"), ("wchar_t", "u16"), ("double", "f64"),
    ("float", "f32"), ("bool", "bool"), ("void", "()"), ("long", "i32"), ("int", "i32"),
    ("short", "i16"), ("char", "i8")]

/-- The first primitive that the text starts with; what follows is ignored. -/
def matchPrimitive (s : List Char) : Option (List Char) :=
  (kPrims.find? fun p => p.1.toList.isPrefixOf s).map fun p => p.2.toList

/-- The last place of a character: the text in front of it. -/
def beforeLast (c : Char) (s : List Char) : Option (List Char) :=
  if c ∈ s then some ((s.reverse.dropWhile (· ≠ c)).drop 1).reverse else none

/-- The pieces between the commas outside of brackets. -/
def splitCommas (depth : Int) (seg : List Char) : List Char → List (List Char)
  | [] => [seg.reverse]
  | c :: s =>
    let depth :=
      if c = '(' ∨ c = '<' then depth + 1
      else if c = ')' ∨ c = '>' then depth - 1
      else depth
    if c = ',' ∧ depth = 0 then seg.reverse :: splitCommas depth [] s
    else splitCommas depth (c :: seg) s

def stripQualifiers : Nat → List Char → List Char
  | 0, s => s
  | fuel + 1, s =>
    if "const ".toList.isPrefixOf s then stripQualifiers fuel (s.drop 6)
    else if "volatile ".toList.isPrefixOf s then stripQualifiers fuel (s.drop 9)
    else s

/-- The text behind the `>` that closes the bracket, at the end of the text if none does. -/
def skipTemplate : Nat → List Char → List Char
  | 0, s => s
  | _ + 1, [] => []
  | d + 1, c :: s =>
    if c = '<' then skipTemplate (d + 2) s
    else if c = '>' then skipTemplate d s
    else skipTemplate (d + 1) s

/-- The characters of a user type, as long as `room` of them fit. -/
def baseChars : Nat → Nat → List Char → List Char
  | 0, _, _ => []
  | _ + 1, _, [] => []
  | _ + 1, 0, _ => []
  | fuel + 1, room + 1, c :: s =>
    if c = ':' ∧ s.head? = some ':' then '.' :: baseChars fuel room s.tail
    else if c = '<' then baseChars fuel (room + 1) (skipTemplate 1 s)
    else if isSpace c then baseChars fuel (room + 1) s
    else c :: baseChars fuel room s

def convertBase (s : List Char) : List Char :=
  match matchPrimitive s with
  | some cal => cal
  | none =>
    let base := baseChars (s.length + 1) 126 s
    if base = [] then "unknown".toList else base

/-- Pieces one after the other into a buffer, with commas between them. -/
def joinInto (n : Nat) (pieces : List (List Char)) : List Char :=
  pieces.foldl (fun buf piece =>
    strncat n (if buf = [] then buf else strncat n buf ", ".toList) piece) []

/-- The translation of a type into a buffer of `n` bytes. -/
def convertOne : Nat → Nat → List Char → List Char
  | 0, _, _ => []
  | fuel + 1, n, cpp =>
    let s := trim (CString.snprintf 256 cpp)
    if s = [] then []
    else if s = "...".toList then CString.snprintf n "...".toList
    else
      let plain :=
        let marks := s.reverse.takeWhile fun c => c = '*' ∨ c = '&'
        let s := trim ((s.reverse.dropWhile fun c => c = '*' ∨ c = '&').reverse)
        let s := trim (stripQualifiers s.length s)
        CString.snprintf n (List.replicate (min marks.length 7) '*' ++ convertBase s)
      match strstr "(*)(".toList s with
      | none => plain
      | some (before, found) =>
        match beforeLast ')' (found.drop 4) with
        | none => plain
        | some args =>
          let rcal := convertOne fuel 128 (trim (before.take 127))
          let pieces := (splitCommas 0 [] (args.take 255)).map fun one => trim (one.take 127)
          let cals := (pieces.filter (· ≠ [])).map (convertOne fuel 128)
          CString.snprintf n ("fn(".toList ++ joinInto 256 cals ++ ") -> ".toList ++ rcal)

def externsCppTypeToCalynda (n : Nat) (cpp : List Char) : List Char :=
  convertOne (cpp.length + 1) n cpp

/-! ## Modules -/

def kRules : List (String × String) :=
  [("__", "msl"), ("std::", "msl"), ("_savegpr", "msl"), ("_restgpr", "msl"), ("_savefpr", "msl"),
    ("_restfpr", "msl"), ("memcpy", "msl"), ("memset", "msl"), ("strlen", "msl"),
    ("strcpy", "msl"), ("strcmp", "msl"), ("strncpy", "msl"), ("strncmp", "msl"),
    ("strcat", "msl"), ("sprintf", "msl"), ("snprintf", "msl"), ("printf", "msl"),
    ("malloc", "msl"), ("free", "msl"), ("qsort", "msl"), ("abs", "msl"), ("OS", "os"),
    ("__OS", "os"), ("DB", "os"), ("GX", "gx"), ("PAD", "pad"), ("KPAD", "kpad"),
    ("WPAD", "wpad"), ("WENC", "wenc"), ("VI", "vi"), ("AI", "ai"), ("AX", "ax"), ("MIX", "mix"),
    ("SP", "ax"), ("DVD", "dvd"), ("__DVD", "dvd"), ("CARD", "card"), ("NAND", "nand"),
    ("ISFS", "isfs"), ("IPC", "ipc"), ("ARC", "arc"), ("EXI", "exi"), ("SI", "si"),
    ("DSP", "dsp"), ("TPL", "tpl"), ("GD", "gd"), ("MTX", "mtx"), ("NET", "net"), ("SO", "so"),
    ("SC", "sc"), ("HBM", "hbm"), ("NWC", "nwc"), ("NHTTP", "nhttp"), ("NSSL", "nssl"),
    ("ESP", "esp"), ("TRK", "trk"), ("IOS_", "ios"), ("BT", "bte"), ("nw4r::", "nw4r"),
    ("nw4r", "nw4r"), ("EGG::", "egg"), ("EGG", "egg"), ("RP", "revopack"),
    ("JSystem::", "jsystem"), ("JKernel::", "jkernel"), ("JUtility::", "jutility"),
    ("JMath::", "jmath"), ("homebutton", "homebutton"), ("HomeButton", "homebutton")]

/-- The module of the longest prefix, the first one of that length; empty if none matches. -/
def externsClassify (raw : List Char) : String :=
  (kRules.foldl (fun (best : Nat × String) rule =>
    if rule.1.length ≤ best.1 then best
    else if rule.1.toList.isPrefixOf raw then (rule.1.length, rule.2)
    else best) (0, "")).2

/-! ## Names and signatures -/

def sanitizeChar (c : Char) : Char := if c.isAlphanum || c == '_' then c else '_'

def sanitize (s : List Char) : List Char := s.map sanitizeChar

/-- The name of an extern in front of the sanitizer. -/
def externSource (d : CwDemangled) (raw module : List Char) : List Char :=
  CString.snprintf 128 <|
    if d.ok then
      let cal := cwToCalyndaBinding 256 d
      -- the module in front is the file that the name is in
      if module ≠ [] ∧ (module ++ ['.']).isPrefixOf cal then cal.drop (module.length + 1) else cal
    else raw

def buildCalyndaName (d : CwDemangled) (raw module : List Char) : List Char :=
  sanitize (externSource d raw module)

def trimSpaces (s : List Char) : List Char :=
  (((s.dropWhile (· = ' ')).reverse.dropWhile (· = ' '))).reverse

/-- The parameters of a printed list, at most 16 of them. -/
def splitArgs (argsParen : List Char) : List (List Char) :=
  let s := if argsParen.head? = some '(' then argsParen.tail else argsParen
  let buf := s.take 383
  let buf := if buf.getLast? = some ')' then buf.dropLast else buf
  let pieces := (splitCommas 0 [] buf).map fun seg =>
    let t := trimSpaces (seg.take 127)
    if t = "void".toList then [] else t
  (pieces.filter (· ≠ [])).take 16

/-- One parameter behind the signature so far. -/
def addParam (st : List Char × Bool × Bool) (part : Nat × List Char) : List Char × Bool × Bool :=
  let (buf, first, isVar) := st
  let buf := if first then buf else strncat 512 buf ", ".toList
  if part.2 = "...".toList then (strncat 512 buf "...args".toList, first, true)
  else
    let label := 'a' :: (Nat.toDigits 10 part.1 ++ ": ".toList)
    (strncat 512 (strncat 512 buf (CString.snprintf 16 label)) (externsCppTypeToCalynda 128 part.2),
      false, isVar)

def buildSignature (d : CwDemangled) : List Char × Bool :=
  if ¬ d.ok then ("fn(...args) -> ()".toList, true)
  else
    let parts := splitArgs d.args
    let (buf, _, isVar) := ((List.range parts.length).zip parts).foldl addParam
      ("fn(".toList, true, false)
    (CString.snprintf 512 (strncat 512 buf ") -> ()".toList), isVar)

/-! ## The inventory -/

/-- The module of a symbol: of its qualifier if it has one, and of its name otherwise. -/
def externModule (e : SymEntry) (d : CwDemangled) : String :=
  externsClassify (if d.ok ∧ d.qualifier ≠ [] then d.qualifier else e.name.toList)

def externEntry (e : SymEntry) (d : CwDemangled) (mod : String) : ExternSymbol :=
  { vaddr := e.vaddr
    module := mod
    name := String.ofList (buildCalyndaName d e.name.toList mod.toList)
    rawName := e.name
    calSig := String.ofList (buildSignature d).1
    isVariadic := (buildSignature d).2
    isUnmapped := false }

/-- The extern of a symbol, none for a symbol of no module. -/
def externOfSymbol (e : SymEntry) : Except Fault (Option ExternSymbol) :=
  match cwDemangle e.name.toList with
  | .error f => .error f
  | .ok d =>
    let mod := externModule e d
    if mod = "" then .ok none else .ok (some (externEntry e d mod))

inductive ExternsFault where
  | demangler (f : Fault)
  | memory (f : MemFault)
  deriving DecidableEq, Repr

def externsOfSymbols (syms : List SymEntry) : Except Fault (List ExternSymbol) :=
  (syms.mapM externOfSymbol).map (·.reduceOption)

def externsBuild (fuel : Nat) (img : DolImage) (syms : List SymEntry) :
    Except ExternsFault (List ExternSymbol) :=
  match externsOfSymbols syms with
  | .error f => .error (.demangler f)
  | .ok entries =>
    match externsScan fuel img entries with
    | .error f => .error (.memory f)
    | .ok entries => .ok entries

end Calynda.Decompiler
