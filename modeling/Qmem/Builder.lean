import Qmem.Lib.CStr

/-!
# The JSON builder (`common/json.c`)

The builder writes into a buffer it does not own. Every character goes through `jsonWrite`,
which refuses a token that would not leave room for the NUL and from then on writes nothing.
A comma is owed or not; that one flag is all the builder knows about the nesting it is in.

The type `δ` stands for C's `double`, and `printG` for what `snprintf("%.6g")` prints of one.
-/

namespace Qmem

open CLib

/-- `json_builder_t`. The buffer is a list of all its `size` bytes. -/
structure JsonBuilder where
  buf : Bytes
  size : Nat
  pos : Nat
  depth : Int
  needsComma : Bool
  error : Bool

def jsonWrite (j : JsonBuilder) (str : Bytes) : JsonBuilder :=
  if j.error then j
  else if j.pos + str.length ≥ j.size then { j with error := true }
  else { j with
    buf := memcpy (memcpy j.buf j.pos str) (j.pos + str.length) [0]
    pos := j.pos + str.length }

def jsonCommaIfNeeded (j : JsonBuilder) : JsonBuilder :=
  { (if j.needsComma then jsonWrite j [0x2c] else j) with needsComma := false }

def jsonInit (buf : Bytes) (size : Nat) : JsonBuilder where
  buf := if size > 0 then memcpy buf 0 [0] else buf
  size := size
  pos := 0
  depth := 0
  needsComma := false
  error := false

/-! ## Containers -/

/-- `json_object_start` and `json_array_start`, for the bracket they write. -/
def jsonOpen (bracket : UInt8) (j : JsonBuilder) : JsonBuilder :=
  let j := jsonWrite (jsonCommaIfNeeded j) [bracket]
  { j with depth := j.depth + 1, needsComma := false }

/-- `json_object_end` and `json_array_end`, for the bracket they write. -/
def jsonClose (bracket : UInt8) (j : JsonBuilder) : JsonBuilder :=
  let j := jsonWrite j [bracket]
  { j with depth := j.depth - 1, needsComma := true }

def jsonObjectStart : JsonBuilder → JsonBuilder := jsonOpen 0x7b
def jsonObjectEnd : JsonBuilder → JsonBuilder := jsonClose 0x7d
def jsonArrayStart : JsonBuilder → JsonBuilder := jsonOpen 0x5b
def jsonArrayEnd : JsonBuilder → JsonBuilder := jsonClose 0x5d

/-! ## Keys and strings -/

/-- The token `json_key` writes for one byte. -/
def escapeKeyByte (c : UInt8) : Bytes :=
  if c = 0x22 then [0x5c, 0x22]
  else if c = 0x5c then [0x5c, 0x5c]
  else if c = 0x0a then [0x5c, 0x6e]
  else if c = 0x0d then [0x5c, 0x72]
  else if c = 0x09 then [0x5c, 0x74]
  else [c]

/-- `snprintf("\\u%04x")` of one byte. -/
def escapeHex (c : UInt8) : Bytes :=
  [0x5c, 0x75, 0x30, 0x30, hexDigit (c.toNat / 16), hexDigit (c.toNat % 16)]

/-- The token `json_string` writes for one byte. -/
def escapeStringByte (c : UInt8) : Bytes :=
  if c = 0x22 then [0x5c, 0x22]
  else if c = 0x5c then [0x5c, 0x5c]
  else if c = 0x0a then [0x5c, 0x6e]
  else if c = 0x0d then [0x5c, 0x72]
  else if c = 0x09 then [0x5c, 0x74]
  else if c < 0x20 then escapeHex c
  else [c]

def jsonKey (j : JsonBuilder) (key : CStr) : JsonBuilder :=
  let j := jsonWrite (jsonCommaIfNeeded j) [0x22]
  let j := key.bytes.foldl (fun j c => jsonWrite j (escapeKeyByte c)) j
  jsonWrite j [0x22, 0x3a]

def jsonNullText : Bytes := [0x6e, 0x75, 0x6c, 0x6c]

/-- The pointer may be NULL. -/
def jsonString (j : JsonBuilder) (value : Option CStr) : JsonBuilder :=
  let j := jsonCommaIfNeeded j
  match value with
  | none => { jsonWrite j jsonNullText with needsComma := true }
  | some value =>
    let j := jsonWrite j [0x22]
    let j := value.bytes.foldl (fun j c => jsonWrite j (escapeStringByte c)) j
    { jsonWrite j [0x22] with needsComma := true }

/-! ## Numbers, booleans, null -/

/-- A value that is one token. -/
def jsonToken (j : JsonBuilder) (text : Bytes) : JsonBuilder :=
  { jsonWrite (jsonCommaIfNeeded j) text with needsComma := true }

def jsonInt (j : JsonBuilder) (value : Int64) : JsonBuilder := jsonToken j (decInt value.toInt)

def jsonUint (j : JsonBuilder) (value : UInt64) : JsonBuilder := jsonToken j (decNat value.toNat)

def jsonBoolText (value : Bool) : Bytes :=
  if value then [0x74, 0x72, 0x75, 0x65] else [0x66, 0x61, 0x6c, 0x73, 0x65]

def jsonBool (j : JsonBuilder) (value : Bool) : JsonBuilder := jsonToken j (jsonBoolText value)

def jsonNull (j : JsonBuilder) : JsonBuilder := jsonToken j jsonNullText

section

variable {δ : Type} (printG : δ → CStr)

def jsonDouble (j : JsonBuilder) (value : δ) : JsonBuilder := jsonToken j (printG value).bytes

/-! ## Key and value -/

def jsonKvString (j : JsonBuilder) (key : CStr) (value : Option CStr) : JsonBuilder :=
  jsonString { jsonKey j key with needsComma := false } value

def jsonKvInt (j : JsonBuilder) (key : CStr) (value : Int64) : JsonBuilder :=
  jsonInt { jsonKey j key with needsComma := false } value

def jsonKvUint (j : JsonBuilder) (key : CStr) (value : UInt64) : JsonBuilder :=
  jsonUint { jsonKey j key with needsComma := false } value

def jsonKvDouble (j : JsonBuilder) (key : CStr) (value : δ) : JsonBuilder :=
  jsonDouble printG { jsonKey j key with needsComma := false } value

def jsonKvBool (j : JsonBuilder) (key : CStr) (value : Bool) : JsonBuilder :=
  jsonBool { jsonKey j key with needsComma := false } value

def jsonLength (j : JsonBuilder) : Nat := j.pos

def jsonError (j : JsonBuilder) : Bool := j.error

/-! ## Sequences of calls -/

/-- One call to the builder. Code that emits JSON never looks at the builder, so what it does is
the list of the calls it makes. -/
inductive JsonCall (δ : Type) where
  | objectStart
  | objectEnd
  | arrayStart
  | arrayEnd
  | key (k : CStr)
  | string (v : Option CStr)
  | int (v : Int64)
  | uint (v : UInt64)
  | double (v : δ)
  | bool (v : Bool)
  | null
  | kvString (k : CStr) (v : Option CStr)
  | kvInt (k : CStr) (v : Int64)
  | kvUint (k : CStr) (v : UInt64)
  | kvDouble (k : CStr) (v : δ)
  | kvBool (k : CStr) (v : Bool)

def JsonCall.run (c : JsonCall δ) (j : JsonBuilder) : JsonBuilder :=
  match c with
  | .objectStart => jsonObjectStart j
  | .objectEnd => jsonObjectEnd j
  | .arrayStart => jsonArrayStart j
  | .arrayEnd => jsonArrayEnd j
  | .key k => jsonKey j k
  | .string v => jsonString j v
  | .int v => jsonInt j v
  | .uint v => jsonUint j v
  | .double v => jsonDouble printG j v
  | .bool v => jsonBool j v
  | .null => jsonNull j
  | .kvString k v => jsonKvString j k v
  | .kvInt k v => jsonKvInt j k v
  | .kvUint k v => jsonKvUint j k v
  | .kvDouble k v => jsonKvDouble printG j k v
  | .kvBool k v => jsonKvBool j k v

def runCalls (cs : List (JsonCall δ)) (j : JsonBuilder) : JsonBuilder :=
  cs.foldl (fun j c => c.run printG j) j

@[simp] theorem runCalls_nil (j : JsonBuilder) : runCalls printG [] j = j := rfl

@[simp] theorem runCalls_cons (c : JsonCall δ) (cs : List (JsonCall δ)) (j : JsonBuilder) :
    runCalls printG (c :: cs) j = runCalls printG cs (c.run printG j) := rfl

/-- An object that is started, written in parts, and ended. -/
def objectCalls (parts : List (List (JsonCall δ))) : List (JsonCall δ) :=
  .objectStart :: (parts.flatten ++ [.objectEnd])

/-- An array that is started, written in a loop over `xs`, and ended. -/
def arrayCalls {α : Type} (xs : List α) (element : α → List (JsonCall δ)) : List (JsonCall δ) :=
  .arrayStart :: (xs.flatMap element ++ [.arrayEnd])

theorem runCalls_append (cs ds : List (JsonCall δ)) (j : JsonBuilder) :
    runCalls printG (cs ++ ds) j = runCalls printG ds (runCalls printG cs j) :=
  List.foldl_append

end

/-- The text in the buffer, as a reader of the C string sees it. -/
def JsonBuilder.text (j : JsonBuilder) : Bytes := (cstr j.buf).bytes

end Qmem
