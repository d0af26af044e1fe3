import JudgeLoom.Library.Except
import JudgeLoom.Python.Json
import JudgeLoom.Worker.Execute

/-!
# Decoding a manifest

`json.Unmarshal` into a `packageManifest`.  The decoder compares the names of members
without regard to case, and a field may have several members.  They are decoded one after
the other into the same variable: a text or a number replaces the one before, the members
of an object join those of the object before, and an array is decoded element by element
over the array before.  `null` changes no text, number or object, and empties a slice.

A value of the wrong type under the name of a field is an error, wherever it stands;
other members are not looked at.  Of the two JSON readers only the decoder is defined
here: the scanner, which makes a syntax tree of a text, is a parameter (`JsonReader`).
A number without fraction and exponent is an `int` in the tree, any other number the
float that it stands for.
-/

namespace JudgeLoom.Go

/-! ## Members -/

/-- The name of a member, as it is compared with the names of fields; besides the ASCII
letters only two characters are equal to one when case is ignored. -/
def foldName (name : String) : String :=
  String.ofList (name.toList.map fun c =>
    if c.toNat = 0x17f then 's' else if c.toNat = 0x212a then 'k' else c.toLower)

/-- The values that are decoded into a field. -/
def fieldValues (members : List (String × Json)) (field : String) : List Json :=
  (members.filter fun member => foldName member.1 = field).map Prod.snd

def members : Json → List (String × Json)
  | .obj members => members
  | _ => []

/-! ## Texts and numbers -/

def text? : Json → Option String
  | .str text => some text
  | _ => none

/-- A value that a `string` can be decoded from. -/
def isText : Json → Bool
  | .str _ | .null => true
  | _ => false

def decodeText (values : List Json) : String := (values.filterMap text?).getLast?.getD ""

variable (A : FloatArith)

def number? : Json → Option ℚ
  | .int z => if A.overflows z then none else some (A.fl z)
  | .float (.finite q) => some q
  | _ => none

/-- A value that a `float64` can be decoded from. -/
def isNumber : Json → Bool
  | .null => true
  | value => (number? A value).isSome

def decodeNumber (values : List Json) : ℚ := (values.filterMap (number? A)).getLast?.getD 0

/-! ## `api.Checker` -/

def isChecker : Json → Bool
  | .null => true
  | .obj members => ["type", "language", "source"].all fun field =>
      (fieldValues members field).all isText
  | _ => false

def decodeChecker (values : List Json) : CheckerSpec :=
  let members := values.flatMap members
  { type := decodeText (fieldValues members "type")
    language := decodeText (fieldValues members "language")
    source := decodeText (fieldValues members "source") }

/-! ## `packageCase` -/

def isCase : Json → Bool
  | .null => true
  | .obj members =>
      (["id", "input", "answer", "input_sha256", "answer_sha256", "group"].all fun field =>
        (fieldValues members field).all isText) &&
          (fieldValues members "points").all (isNumber A)
  | _ => false

def decodeCase (members : List (String × Json)) : PackageCase where
  id := decodeText (fieldValues members "id")
  input := decodeText (fieldValues members "input")
  answer := decodeText (fieldValues members "answer")
  inputSHA256 := decodeText (fieldValues members "input_sha256")
  answerSHA256 := decodeText (fieldValues members "answer_sha256")
  points := decodeNumber A (fieldValues members "points")
  group := decodeText (fieldValues members "group")

def isCases : Json → Bool
  | .null => true
  | .arr items => items.all (isCase A)
  | _ => false

/-- A slice while arrays are decoded into it: its length, and for each place of the array
behind it the members that were decoded there. -/
structure Slice where
  length : ℕ := 0
  places : List (List (String × Json)) := []

/-- An array is decoded over the one before; `null` and the empty array start anew. -/
def Slice.decode (slice : Slice) : Json → Slice
  | .arr (first :: rest) =>
      { length := (first :: rest).length
        places := ((first :: rest).mapIdx fun index item =>
            (slice.places[index]?).getD [] ++ members item) ++
          slice.places.drop (first :: rest).length }
  | _ => {}

/-- The members of each element of a slice. -/
def decodeItems (values : List Json) : List (List (String × Json)) :=
  let slice := values.foldl Slice.decode {}
  slice.places.take slice.length

/-! ## `packageManifest` -/

def isManifest : Json → Bool
  | .null => true
  | .obj members =>
      (fieldValues members "cases").all (isCases A) &&
        ((fieldValues members "checker").all isChecker &&
          (fieldValues members "validator").all isChecker)
  | _ => false

def decodeManifest (tree : Json) : PackageManifest where
  cases := (decodeItems (fieldValues (members tree) "cases")).map (decodeCase A)
  checker := decodeChecker (fieldValues (members tree) "checker")
  validator := decodeChecker (fieldValues (members tree) "validator")

/-- What the worker uses of `encoding/json`. -/
structure JsonReader where
  /-- The syntax tree of a text. -/
  parse : Bytes → Except Bytes Json
  /-- The error for the first value of the wrong type. -/
  typeError : Json → Bytes

/-- `json.Unmarshal` into a `packageManifest`. -/
def JsonReader.unmarshalManifest (J : JsonReader) (payload : Bytes) :
    Except Bytes PackageManifest := do
  let tree ← J.parse payload
  if isManifest A tree then .ok (decodeManifest A tree) else .error (J.typeError tree)

/-! ## One array of objects -/

variable {A}

/-- With one array there is nothing to decode over. -/
theorem decodeItems_singleton (items : List Json) :
    decodeItems [.arr items] = items.map members := by
  cases items with
  | nil => rfl
  | cons first rest =>
      have hplaces : ∀ l : List Json, (l.mapIdx fun index item =>
          (([] : List (List (String × Json)))[index]?).getD [] ++ members item) =
            l.map members :=
        fun l => List.ext_getElem (by simp) (by simp)
      unfold decodeItems
      rw [List.foldl_cons, List.foldl_nil, Slice.decode]
      dsimp only
      rw [hplaces, List.drop_nil, List.append_nil]
      exact List.take_of_length_le (by rw [List.length_map])

theorem unmarshalManifest_eq_ok {J : JsonReader} {payload : Bytes} {manifest : PackageManifest} :
    J.unmarshalManifest A payload = .ok manifest ↔
      ∃ tree, J.parse payload = .ok tree ∧ isManifest A tree = true ∧
        manifest = decodeManifest A tree := by
  unfold JsonReader.unmarshalManifest
  rw [Except.bind_eq_ok]
  refine exists_congr fun tree => and_congr_right fun _ => ?_
  split
  · next htyped => rw [Except.ok.injEq, and_iff_right htyped, eq_comm]
  · next htyped => exact iff_of_false (fun h => by cases h) fun h => htyped h.1

end JudgeLoom.Go
