import JudgeLoom.Library.FloatArith
import Mathlib.Data.Int.Notation

/-!
# JSON values as Python sees them

`json.loads` and the JSON columns of the database hand the services trees of
dictionaries, lists, strings, numbers, booleans and `None`.  `Json` is such a
tree.  An object keeps its members in the order of the text, repeated keys
included: a Python dictionary is read by looking for the last member of a key
(`Json.lookup`), so assigning to a key is appending a member.

`Python` collects what the services use of the language's runtime and standard
library without the model depending on how it works: the float arithmetic, the
`repr` of floats and strings, the parser behind `float(text)`, the Unicode digit
tables, SHA-256, the ZIP reader and the JSON parser.  No law is assumed of any of
them beyond the laws of `FloatArith`.
-/

namespace JudgeLoom

abbrev Bytes := List UInt8

/-- A Python float: a finite one, by the rational it stands for, or a special one. -/
inductive PyFloat
  | finite (q : ℚ)
  | inf (negative : Bool)
  | nan
  deriving DecidableEq

inductive Json
  | null
  | bool (b : Bool)
  | int (z : ℤ)
  | float (x : PyFloat)
  | str (s : String)
  | arr (items : List Json)
  | obj (members : List (String × Json))

/-- Exceptions of the language and its library. -/
inductive PyError
  | typeError
  | valueError
  | overflowError
  | attributeError
  | keyError
  | badZipFile
  /-- `JSONDecodeError` or `UnicodeDecodeError`. -/
  | decodeError
  /-- Any other exception of the ZIP reader or the JSON parser, such as `RuntimeError`,
  `NotImplementedError`, `zlib.error` or `RecursionError`. -/
  | other
  deriving DecidableEq, Repr

/-- One entry of a ZIP archive, as both ZIP readers list it. -/
structure ZipEntry where
  name : String
  /-- What reading the entry returns. -/
  content : Except PyError Bytes
  /-- The declared uncompressed size. -/
  fileSize : ℕ
  /-- The external attributes mark a directory. -/
  dirMode : Bool := false
  /-- The external attributes mark a symbolic link. -/
  symlink : Bool := false

/-- What the services use of the language's runtime and standard library. -/
structure Python where
  arith : FloatArith
  /-- `repr` of a float. -/
  reprFloat : PyFloat → String
  /-- `repr` of a string. -/
  reprStr : String → String
  /-- `float(text)`; `none` is a `ValueError`. -/
  parseFloat : String → Option PyFloat
  /-- `character.isdigit()`. -/
  isDigit : Char → Bool
  /-- The value of a decimal digit; `none` for digits `int(text)` rejects. -/
  decimal : Char → Option ℕ
  /-- `hashlib.sha256(data).hexdigest()`. -/
  sha256 : Bytes → String
  /-- The entries of an archive in order. -/
  openZip : Bytes → Except PyError (List ZipEntry)
  /-- `json.loads(payload)`. -/
  loads : Bytes → Except PyError Json

/-- The arithmetic and the character tables alone, for evaluating the model on
inputs that read no archive, parse no text and print no value. -/
def Python.plain (arith : FloatArith) : Python where
  arith
  reprFloat _ := ""
  reprStr text := text
  parseFloat _ := none
  isDigit character := character.isDigit
  decimal character := if character.isDigit then some (character.toNat - 48) else none
  sha256 _ := ""
  openZip _ := .error .badZipFile
  loads _ := .error .decodeError

/-- `x or default` for numbers. -/
def orElse {α : Type*} [Zero α] [DecidableEq α] (x default : α) : α := if x = 0 then default else x

@[simp] theorem orElse_zero {α : Type*} [Zero α] [DecidableEq α] (x : α) : orElse x 0 = x := by
  unfold orElse
  split
  · next h => exact h.symm
  · rfl

namespace Json

/-- The member a Python dictionary holds for `key`: the last one of the text. -/
def lookup (members : List (String × Json)) (key : String) : Option Json :=
  (members.reverse.find? fun member => member.1 = key).map Prod.snd

/-- `value.get(key)`, for a value that is a dictionary. -/
def get? (value : Json) (key : String) : Option Json :=
  match value with
  | obj members => lookup members key
  | _ => none

theorem lookup_append (members more : List (String × Json)) (key : String) :
    lookup (members ++ more) key = (lookup more key).or (lookup members key) := by
  unfold lookup
  rw [List.reverse_append, List.find?_append]
  cases more.reverse.find? fun member => member.1 = key <;> rfl

@[simp] theorem lookup_nil (key : String) : lookup [] key = none := rfl

@[simp] theorem lookup_singleton (name : String) (value : Json) (key : String) :
    lookup [(name, value)] key = if name = key then some value else none := by
  unfold lookup
  by_cases h : name = key <;> simp [h]

/-- `bool(value)`. -/
def truthy : Json → Bool
  | null => false
  | bool b => b
  | int z => z ≠ 0
  | float (.finite q) => q ≠ 0
  | float _ => true
  | str s => s ≠ ""
  | arr items => !items.isEmpty
  | obj members => !members.isEmpty

/-- `value or default`. -/
def orDefault (value default : Json) : Json := if value.truthy then value else default

mutual

/-- `repr(value)`. -/
def repr (P : Python) : Json → String
  | null => "None"
  | bool b => if b then "True" else "False"
  | int z => toString z
  | float x => P.reprFloat x
  | str s => P.reprStr s
  | arr items => "[" ++ reprItems P items ++ "]"
  | obj members => "\x7b" ++ reprMembers P members ++ "\x7d"

def reprItems (P : Python) : List Json → String
  | [] => ""
  | [item] => repr P item
  | item :: rest => repr P item ++ ", " ++ reprItems P rest

def reprMembers (P : Python) : List (String × Json) → String
  | [] => ""
  | [(key, value)] => P.reprStr key ++ ": " ++ repr P value
  | (key, value) :: rest => P.reprStr key ++ ": " ++ repr P value ++ ", " ++ reprMembers P rest

end

/-- `str(value)`. -/
def toStr (P : Python) : Json → String
  | str s => s
  | value => repr P value

@[simp] theorem toStr_str (P : Python) (s : String) : toStr P (str s) = s := rfl

/-- `float(value)`. -/
def toFloat (P : Python) : Json → Except PyError PyFloat
  | bool b => .ok (.finite (if b then 1 else 0))
  | int z => if P.arith.overflows z then .error .overflowError else .ok (.finite (P.arith.fl z))
  | float x => .ok x
  | str s => (P.parseFloat s).elim (.error .valueError) .ok
  | _ => .error .typeError

/-- `value if value is not None` of a dictionary member, as the list it has to be. -/
def items? : Json → Option (List Json)
  | arr items => some items
  | _ => none

end Json

/-- The white space that `str.strip()` removes. -/
def isSpace (c : Char) : Bool :=
  let n := c.toNat
  (9 ≤ n && n ≤ 13) || (28 ≤ n && n ≤ 32) || n = 0x85 || n = 0xa0 || n = 0x1680 ||
    (0x2000 ≤ n && n ≤ 0x200a) || n = 0x2028 || n = 0x2029 || n = 0x202f || n = 0x205f ||
    n = 0x3000

/-- `text.strip()`. -/
def strip (text : String) : String :=
  String.ofList (((text.toList.dropWhile isSpace).reverse.dropWhile isSpace).reverse)

/-- `text.lower()` where only the ASCII letters matter: every other character
whose lower case is an ASCII letter gives `k` or an `i` with a combining dot,
and none of the words compared with contains a `k` or a combining character. -/
def lower (text : String) : String := String.ofList (text.toList.map Char.toLower)

end JudgeLoom
