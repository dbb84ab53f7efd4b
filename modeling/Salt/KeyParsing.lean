import Salt.Basics

set_option autoImplicit false

/-!
# The key parser

A cursor is the list of the bytes from the cursor to the end of the object it
points into, so reading moves to a tail and reading at `[]` is outside the
object. Every function that reads or writes memory returns `none` for such an
access.
-/
namespace Salt.KeyParsing
open ByteStrings

def cliIsAsciiWs (c : UInt8) : Bool :=
  c = 32 || c = 9 || c = 10 || c = 13 || c = 11 || c = 12

def memchr : Bytes → UInt8 → ℕ → Option (Option ℕ)
  | _, _, 0 => some none
  | [], _, _ + 1 => none
  | x :: rest, c, n + 1 =>
    if x = c then some (some 0) else (memchr rest c n).map (Option.map (· + 1))

def scanLeading (value : Bytes) : ℕ → ℕ → Option ℕ
  | start, 0 => some start
  | start, n + 1 => do
    let c ← value[start]?
    if cliIsAsciiWs c then scanLeading value (start + 1) n else some start

/-- `for (i = ..; n iterations; ++i) value[i] = value[start + i];` -/
def moveDown (start : ℕ) : Bytes → ℕ → ℕ → Option Bytes
  | value, _, 0 => some value
  | value, i, n + 1 => do
    let c ← value[start + i]?
    let value ← store value i c
    moveDown start value (i + 1) n

def scanTrailing (value : Bytes) : ℕ → Option ℕ
  | 0 => some 0
  | n + 1 => do
    let c ← value[n]?
    if cliIsAsciiWs c then scanTrailing value n else some (n + 1)

/-- `if (nul == NULL) value[value_size - 1U] = '\0';` -/
def forceTerminator (value : Bytes) (valueSize : ℕ) (nul : Option ℕ) : Option Bytes :=
  if nul = none then store value (valueSize - 1) 0 else some value

/-- `if (start > 0U)`: moves the rest of the string and its terminator to the front. -/
def closeGap (value : Bytes) (start len : ℕ) : Option Bytes :=
  if 0 < start then moveDown start value 0 (len - start + 1) else some value

def saltCliTrimWhitespaceInplace (value : Bytes) (valueSize : ℕ) : Option Bytes :=
  if valueSize = 0 then some value
  else do
    let nul ← memchr value 0 valueSize
    let len := nul.getD (valueSize - 1)
    let value ← forceTerminator value valueSize nul
    let start ← scanLeading value 0 len
    let value ← closeGap value start len
    let stop ← scanTrailing value (len - start)
    store value stop 0

def jsonSkipWs : Bytes → Option Bytes
  | [] => none
  | c :: rest => if c ≠ 0 ∧ cliIsAsciiWs c = true then jsonSkipWs rest else some (c :: rest)

def escapeTable : List (UInt8 × UInt8) :=
  [(110, 10), (114, 13), (116, 9), (34, 34), (92, 92), (47, 47)]

def escapeLookup (c : UInt8) : Option UInt8 := escapeTable.lookup c

structure Token where
  ok : Bool
  cursor : Bytes
  out : Bytes

/-- The loop of `json_parse_string_token` and the code after it; `i` bytes are stored. -/
def jsonStringLoop : Bytes → ℕ → Bytes → Option Token
  | [], _, _ => none
  | c :: rest, i, out =>
    if c = 0 then some ⟨false, c :: rest, out⟩
    else if c = 34 then
      if out.length ≤ i then some ⟨false, c :: rest, out⟩
      else (store out i 0).map fun out => ⟨true, rest, out⟩
    else if c = 92 then
      match rest with
      | [] => none
      | e :: rest =>
        if e = 0 then some ⟨false, e :: rest, out⟩
        else if out.length ≤ i + 1 then some ⟨false, e :: rest, out⟩
        else
          match escapeLookup e with
          | none => some ⟨false, e :: rest, out⟩
          | some v => (store out i v).bind fun out => jsonStringLoop rest (i + 1) out
    else if c < 0x20 then some ⟨false, c :: rest, out⟩
    else if out.length ≤ i + 1 then some ⟨false, c :: rest, out⟩
    else (store out i c).bind fun out => jsonStringLoop rest (i + 1) out

def jsonParseStringToken (cursor out : Bytes) : Option Token :=
  if out.length = 0 then some ⟨false, cursor, out⟩
  else
    match cursor with
    | [] => none
    | c :: rest => if c ≠ 34 then some ⟨false, c :: rest, out⟩ else jsonStringLoop rest 0 out

def cliSetError (error : Option Bytes) (text : Bytes) : Option Bytes := setErrorBuffer error text

def jsonInvalidKeyObject (error : Option Bytes) : Option Bytes :=
  cliSetError error (ascii "invalid JSON key object")

/-- A parser state: `struct json_key_fields`, the cursor and the error buffer. -/
structure Fields where
  cursor : Bytes
  keyB64 : Bytes
  keyId : Option Bytes
  keySet : Bool
  keyIdSet : Bool
  error : Option Bytes

def jsonParseKeyField (s : Fields) : Option (SaltStatus × Fields) := do
  let t ← jsonParseStringToken s.cursor s.keyB64
  let s := { s with cursor := t.cursor, keyB64 := t.out }
  if t.ok then return (.ok, s)
  else return (.errInput, { s with
    error := cliSetError s.error (ascii "JSON key object must include string field 'key'") })

def jsonParseKeyIdField (s : Fields) : Option (SaltStatus × Fields) :=
  let message := ascii "JSON key object field 'key_id' must be a string"
  match s.keyId with
  | none => some (.errInput, { s with error := cliSetError s.error message })
  | some keyId =>
    if keyId.length = 0 then some (.errInput, { s with error := cliSetError s.error message })
    else do
      let t ← jsonParseStringToken s.cursor keyId
      let s := { s with cursor := t.cursor, keyId := some t.out }
      if t.ok then return (.ok, s)
      else return (.errInput, { s with error := cliSetError s.error message })

/-- `char field[32]`; only the part a token wrote is ever read. -/
def fieldBuffer : Bytes := List.replicate 32 0

def jsonParseFieldName (s : Fields) (field : Bytes) :
    Option (SaltStatus × Bytes × Fields) := do
  let cursor ← jsonSkipWs s.cursor
  let t ← jsonParseStringToken cursor field
  if !t.ok then
    return (.errInput, t.out, { s with cursor := t.cursor, error := jsonInvalidKeyObject s.error })
  else
    let cursor ← jsonSkipWs t.cursor
    match cursor with
    | [] => none
    | c :: rest =>
      if c ≠ 58 then
        return (.errInput, t.out,
          { s with cursor := c :: rest, error := jsonInvalidKeyObject s.error })
      else
        let cursor ← jsonSkipWs rest
        return (.ok, t.out, { s with cursor := cursor })

def jsonFieldEquals (field : Bytes) (expected : Bytes) : Bool := cstr field = expected

def jsonParseKnownField (field : Bytes) (s : Fields) : Option (SaltStatus × Fields) :=
  if jsonFieldEquals field (ascii "key") then
    if s.keySet then
      some (.errInput, { s with
        error := cliSetError s.error (ascii "JSON key object has duplicate field 'key'") })
    else do
      let (rc, s) ← jsonParseKeyField s
      if rc ≠ .ok then return (.errInput, s) else return (.ok, { s with keySet := true })
  else if jsonFieldEquals field (ascii "key_id") then
    if s.keyIdSet then
      some (.errInput, { s with
        error := cliSetError s.error (ascii "JSON key object has duplicate field 'key_id'") })
    else do
      let (rc, s) ← jsonParseKeyIdField s
      if rc ≠ .ok then return (.errInput, s) else return (.ok, { s with keyIdSet := true })
  else
    some (.errInput, { s with
      error := cliSetError s.error
        (ascii "JSON key object contains unsupported field '" ++ cstr field ++ ascii "'") })

/-- The member loop. Every round consumes input, so the length of the input is fuel enough. -/
def jsonParseMembers : ℕ → Fields → Option (SaltStatus × Fields)
  | 0, _ => none
  | fuel + 1, s => do
    let (rc, field, s) ← jsonParseFieldName s fieldBuffer
    if rc ≠ .ok then return (.errInput, s)
    else
      let (rc, s) ← jsonParseKnownField field s
      if rc ≠ .ok then return (.errInput, s)
      else
        let cursor ← jsonSkipWs s.cursor
        match cursor with
        | [] => none
        | c :: rest =>
          if c = 44 then jsonParseMembers fuel { s with cursor := rest }
          else if c = 125 then return (.ok, { s with cursor := rest })
          else return (.errInput,
            { s with cursor := c :: rest, error := jsonInvalidKeyObject s.error })

structure KeyOut where
  keyB64 : Option Bytes
  keyId : Option Bytes
  hasKeyId : Option Bool
  error : Option Bytes

def jsonFinishKeyFields (s : Fields) (hasKeyId : Bool) : Option (SaltStatus × KeyOut) :=
  if !s.keySet then
    some (.errInput, ⟨some s.keyB64, s.keyId, some hasKeyId,
      cliSetError s.error (ascii "JSON key object must include string field 'key'")⟩)
  else do
    let keyB64 ← saltCliTrimWhitespaceInplace s.keyB64 s.keyB64.length
    let first ← keyB64[0]?
    if first = 0 then
      return (.errInput, ⟨some keyB64, s.keyId, some hasKeyId,
        cliSetError s.error (ascii "JSON key field 'key' must not be empty")⟩)
    else
      match s.keyId, s.keyIdSet with
      | some keyId, true =>
        let keyId ← saltCliTrimWhitespaceInplace keyId keyId.length
        let first ← keyId[0]?
        return (.ok, ⟨some keyB64, some keyId, some (hasKeyId || first ≠ 0), s.error⟩)
      | keyId, _ => return (.ok, ⟨some keyB64, keyId, some hasKeyId, s.error⟩)

/-- `if (key_id != NULL && key_id_size > 0U) key_id[0] = '\0';` -/
def clearKeyId (keyId : Option Bytes) : Option Bytes := keyId.map (·.set 0 0)

def saltCliParseKeyJsonObjectStrict (json : Option Bytes) (io : KeyOut) :
    Option (SaltStatus × KeyOut) :=
  match json, io.keyB64, io.hasKeyId with
  | some json, some keyB64, some _ =>
    if keyB64.length = 0 then
      some (.errInput, { io with
        error := cliSetError io.error (ascii "invalid JSON key parser arguments") })
    else do
      let keyId := clearKeyId io.keyId
      let fail (error : Option Bytes) : SaltStatus × KeyOut :=
        (.errInput, ⟨some keyB64, keyId, some false, error⟩)
      match ← jsonSkipWs json with
      | [] => none
      | c :: cursor =>
        if c ≠ 123 then return fail (jsonInvalidKeyObject io.error)
        else
          match ← jsonSkipWs cursor with
          | [] => none
          | c :: cursor =>
            if c = 125 then
              return fail
                (cliSetError io.error (ascii "JSON key object must include string field 'key'"))
            else
              let (rc, s) ← jsonParseMembers (c :: cursor).length
                ⟨c :: cursor, keyB64, keyId, false, false, io.error⟩
              if rc ≠ .ok then
                return (.errInput, ⟨some s.keyB64, s.keyId, some false, s.error⟩)
              else
                match ← jsonSkipWs s.cursor with
                | [] => none
                | c :: _ =>
                  if c ≠ 0 then
                    return (.errInput, ⟨some s.keyB64, s.keyId, some false,
                      jsonInvalidKeyObject s.error⟩)
                  else jsonFinishKeyFields s false
  | _, _, _ =>
    some (.errInput, { io with
      error := cliSetError io.error (ascii "invalid JSON key parser arguments") })

def skipLeadingAsciiWs (value : Bytes) : Option Bytes := jsonSkipWs value

def saltCliShouldParseKeyAsJson (keyFormat : KeyFormat) (first : UInt8) : Bool :=
  keyFormat = .json || (keyFormat = .auto && first = 123)

def strlen : Bytes → Option ℕ
  | [] => none
  | c :: rest => if c = 0 then some 0 else (strlen rest).map (· + 1)

/-- `for (i = 0; i <= key_len; ++i) key_b64[i] = cursor[i];` -/
def copyBytes (cursor : Bytes) : Bytes → ℕ → ℕ → Option Bytes
  | out, _, 0 => some out
  | out, i, n + 1 => do
    let c ← cursor[i]?
    let out ← store out i c
    copyBytes cursor out (i + 1) n

def saltCliCopyBase64KeyInput (cursor keyB64 : Bytes) (error : Option Bytes) :
    Option (SaltStatus × Bytes × Option Bytes) := do
  let keyLen ← strlen cursor
  if keyB64.length ≤ keyLen then
    return (.errInput, keyB64, cliSetError error (ascii "public key buffer too small"))
  else
    let keyB64 ← copyBytes cursor keyB64 0 (keyLen + 1)
    let keyB64 ← saltCliTrimWhitespaceInplace keyB64 keyB64.length
    let first ← keyB64[0]?
    if first = 0 then
      return (.errInput, keyB64, cliSetError error (ascii "public key must not be empty"))
    else return (.ok, keyB64, error)

def saltCliParseKeyInput (keyInput : Option Bytes) (keyFormat : KeyFormat) (io : KeyOut) :
    Option (SaltStatus × KeyOut) :=
  match keyInput, io.keyB64, io.hasKeyId with
  | some keyInput, some keyB64, some _ =>
    if keyB64.length = 0 then
      some (.errInput, { io with
        error := cliSetError io.error (ascii "invalid key input arguments") })
    else do
      let io := { io with hasKeyId := some false, keyId := clearKeyId io.keyId }
      match ← skipLeadingAsciiWs keyInput with
      | [] => none
      | c :: cursor =>
        if !saltCliShouldParseKeyAsJson keyFormat c then
          let (rc, keyB64, error) ← saltCliCopyBase64KeyInput (c :: cursor) keyB64 io.error
          return (rc, { io with keyB64 := some keyB64, error := error })
        else saltCliParseKeyJsonObjectStrict (some (c :: cursor)) io
  | _, _, _ =>
    some (.errInput, { io with
      error := cliSetError io.error (ascii "invalid key input arguments") })

end Salt.KeyParsing
