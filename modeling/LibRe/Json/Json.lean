/-
LibRe.Json.Json — JSON text and ordered dictionaries (`src/json/encode.c`,
`src/json/decode.c`, `src/json/decode_odict.c`).

The decoder goes over the text once, a character at a time. It remembers where the name
and the value began that it is in, and hands their texts to `decode_name` and
`decode_value` when a colon, a comma or a closing bracket ends them. An opening bracket
inside an object or an array starts another run of the same loop.

Translation notes. The handlers are those of `json_decode_odict`. A container is entered
into its parent before it is filled in the source, and after that here; the parent is not
touched in between. A text that is remembered is the bytes since its start. The first
character of a nested run, its opening bracket, only sets the kind of the container, so
the run starts behind it. Integers are exact, as the extended-precision numbers of the
source are for 64 bits; printing a double and reading a number with a fraction or an
exponent are functions (`Floats`). The negative of the least integer wraps around.
-/
import LibRe.Fmt.Unicode
import LibRe.Lib.Digits
import LibRe.Odict.Odict

namespace LibRe.Json

open Digits

/-- `re_snprintf(index, sizeof(index), "%u", idx)` -/
def index (idx : UInt32) : CStr where
  bytes := decimal idx.toNat
  no_nul h := absurd (isDigit_of_mem_decimal h) (by decide)

/-- Doubles as text. -/
structure Floats where
  print : UInt64 → Bytes
  parse : Bytes → UInt64

variable (F : Floats)

/-! ## Encoding -/

/-- `"%lld"` -/
def intText (i : Int64) : Bytes :=
  if i.toInt < 0 then 45 :: decimal i.toInt.natAbs else decimal i.toInt.natAbs

/-- `"\"%H\"", utf8_encode` -/
def quoted (s : CStr) : Bytes := 34 :: utf8Encode s.bytes ++ [34]

/-- `le->next ? "," : ""` -/
def comma : Odict → Bytes
  | .nil => []
  | .cons .. => [44]

mutual

/-- `encode_entry` -/
def encodeEntry : OdictValue → Bytes
  | .object o => 123 :: entriesText o ++ [125]
  | .array o => 91 :: elementsText o ++ [93]
  | .int i => intText i
  | .double bits => F.print bits
  | .string s => quoted s
  | .bool b => if b then asciiBytes "true" else asciiBytes "false"
  | .null => asciiBytes "null"

/-- The loop of `json_encode_odict`. -/
def entriesText : Odict → Bytes
  | .nil => []
  | .cons key v rest => quoted key ++ 58 :: (encodeEntry v ++ (comma rest ++ entriesText rest))

/-- The loop over an array of `encode_entry`. -/
def elementsText : Odict → Bytes
  | .nil => []
  | .cons _ v rest => encodeEntry v ++ (comma rest ++ elementsText rest)

end

/-- `json_encode_odict` -/
def jsonEncodeOdict (o : Odict) : Bytes := 123 :: entriesText F o ++ [125]

/-! ## Names and values -/

/-- `is_string` -/
def isString (pl : Bytes) : Option Bytes :=
  if pl.length < 2 then none
  else if pl.headD 0 ≠ 34 ∨ pl.getLastD 0 ≠ 34 then none
  else some (pl.drop 1).dropLast

/-- The variables of `is_number`; `v` counts for integers only. -/
structure NumState where
  neg : Bool := false
  pos : Bool := false
  frac : Bool := false
  exp : Bool := false
  v : Nat := 0
  mul : Nat := 1
  deriving DecidableEq, Repr

/-- One character of `is_number`, which goes from right to left. -/
def numStep (st : NumState) (ch : UInt8) : Option NumState :=
  if ch = 101 ∨ ch = 69 then
    if st.exp || st.frac then none else some { exp := true }
  else if st.pos || st.neg then none
  else if ch = 46 then
    if st.frac then none else some { st with frac := true, v := 0, mul := 1 }
  else if isDigit ch then some { st with v := st.v + st.mul * (ch.toNat - 48), mul := st.mul * 10 }
  else if ch = 45 then some { st with neg := true }
  else if ch = 43 then some { st with pos := true }
  else none

/-- `is_number`, with the value that `decode_value` makes of the number. An integer of more
than 64 bits wraps around here; in the source its conversion is undefined. -/
def isNumber (pl : Bytes) : Option OdictValue :=
  if pl.length = 0 then none
  else
    (pl.reverse.foldlM numStep {}).map fun st =>
      if st.frac || st.exp then .double (F.parse pl)
      else .int (Int64.ofInt (if st.neg then -(st.v : Int) else st.v))

/-- `decode_name` -/
def decodeName (pl : Bytes) : Except Errno CStr :=
  match isString pl with
  | none => .error .EBADMSG
  | some pls => (utf8Decode none pls).map CStr.ofMem

/-- `decode_value` -/
def decodeValue (pl : Bytes) : Except Errno OdictValue :=
  match isString pl with
  | some pls => (utf8Decode none pls).map fun str => .string (CStr.ofMem str)
  | none =>
    match isNumber F pl with
    | some v => .ok v
    | none =>
      if strCaseeq pl (asciiBytes "false") then .ok (.bool false)
      else if strCaseeq pl (asciiBytes "true") then .ok (.bool true)
      else if strCaseeq pl (asciiBytes "null") then .ok .null
      else .error .EBADMSG

/-! ## The loop -/

/-- The variables of `_json_decode`, with the dictionary that is filled. -/
structure St where
  esc : Bool := false
  inquot : Bool := false
  inobj : Bool := false
  inarray : Bool := false
  name : Option Bytes := none
  val : Option Bytes := none
  ws : Nat := 0
  idx : UInt32 := 0
  o : Odict := .nil

variable (maxdepth : Nat) (st : St) (ch : UInt8)

/-- The text since the start of the value grows. -/
def St.keep (xs : Bytes) : St := { st with val := st.val.map (· ++ xs) }

/-- `chkval(&val, *str - ws)` -/
def St.chkval : Option Bytes :=
  match st.val with
  | none => none
  | some val => if st.ws > val.length then none else some (val.take (val.length - st.ws))

/-- `object_entry` -/
def St.objectEntry (name val : Bytes) : Except Errno Odict :=
  match decodeName name with
  | .error err => .error err
  | .ok key => (decodeValue F val).map fun v => odictEntryAdd key v st.o

/-- `array_entry` -/
def St.arrayEntry (val : Bytes) : Except Errno Odict :=
  (decodeValue F val).map fun v => odictEntryAdd (index st.idx) v st.o

/-- The key of a container: its name, or its index in an array. -/
def St.containerKey : Except Errno CStr :=
  match st.name with
  | some name => decodeName name
  | none => .ok (index st.idx)

/-- What a character leads to: the next one, a container with the given key, or the end. -/
inductive Step where
  | next (st : St)
  | nested (key : CStr)
  | done (o : Odict)
  | error (err : Errno)

/-- The cases `{` and `[`. -/
def St.open (deep : Bool) : Step :=
  if st.inobj || st.inarray then
    if deep then .error .EOVERFLOW
    else if st.inobj && st.name.isNone then .error .EBADMSG
    else
      match st.containerKey with
      | .error err => .error err
      | .ok key => .nested key
  else if ch = 123 then .next ({ st with inobj := true }.keep [ch])
  else .next ({ st with inarray := true, idx := 0 }.keep [ch])

/-- The case `,`. -/
def St.comma : Step :=
  match st.chkval with
  | none => .next (st.keep [44])
  | some val =>
    let entry :=
      if st.inobj then
        match st.name with
        | none => .error .EBADMSG
        | some name => st.objectEntry F name val
      else if st.inarray then st.arrayEntry F val
      else .error .EBADMSG
    match entry with
    | .error err => .error err
    | .ok o =>
      .next { st with name := none, val := none, o, idx := if st.inobj then st.idx else st.idx + 1 }

/-- The case `}`. -/
def St.closeObject : Step :=
  if !st.inobj then .error .EBADMSG
  else
    match st.chkval, st.name with
    | none, _ => .done st.o
    | some _, none => .error .EBADMSG
    | some val, some name =>
      match st.objectEntry F name val with
      | .error err => .error err
      | .ok o => .done o

/-- The case `]`. -/
def St.closeArray : Step :=
  if !st.inarray then .error .EBADMSG
  else
    match st.chkval with
    | none => .done st.o
    | some val =>
      match st.arrayEntry F val with
      | .error err => .error err
      | .ok o => .done o

/-- All other characters; outside of all containers the rest of the text is a value. -/
def St.other (rest : Bytes) : St :=
  match st.val with
  | some _ => st.keep [ch]
  | none =>
    let st := { st with inquot := ch = 34, val := some [ch], ws := 0 }
    if !st.inobj && !st.inarray then
      match st.arrayEntry F (ch :: rest) with
      | .error _ => st
      | .ok o => { st with o }
    else st

/-- A character between quotes. -/
def St.quotedChar : St :=
  let st := st.keep [ch]
  if st.esc then { st with esc := false }
  else if ch = 34 then { st with inquot := false }
  else if ch = 92 then { st with esc := true }
  else st

/-- One character of `_json_decode`. -/
def St.step (deep : Bool) (ch : UInt8) (rest : Bytes) : Step :=
  if st.inquot then .next (st.quotedChar ch)
  else
    match ch.toNat with
    | 58 =>
      if !st.inobj || st.name.isSome then .error .EBADMSG
      else
        match st.chkval with
        | none => .error .EBADMSG
        | some val => .next { st with name := some val, val := none }
    | 44 => st.comma F
    | 123 => st.open ch deep
    | 91 => st.open ch deep
    | 125 => st.closeObject F
    | 93 => st.closeArray F
    | 32 | 9 | 13 | 10 => .next { st.keep [ch] with ws := st.ws + 1 }
    | _ => .next (st.other F ch rest)

/-- The state behind a container, of which `text` was read. -/
def St.closed (key : CStr) (v : OdictValue) (text : Bytes) : St :=
  { st.keep text with
    name := none
    o := odictEntryAdd key v st.o
    idx := if st.inarray then st.idx + 1 else st.idx }

/-- `_json_decode`: the dictionary, and the text from the character on that ended the loop. -/
def jsonLoop (maxdepth : Nat) : Nat → Nat → St → Bytes → Except Errno (Odict × Bytes)
  | _, _, st, [] => if st.inobj || st.inarray then .error .EBADMSG else .ok (st.o, [])
  -- every character takes one call, so there are as many as characters
  | 0, _, _, _ :: _ => .error .EBADMSG
  | n + 1, depth, st, ch :: rest =>
    match st.step F (depth ≥ maxdepth) ch rest with
    | .error err => .error err
    | .done o => .ok (o, ch :: rest)
    | .next st => jsonLoop maxdepth n depth st rest
    | .nested key =>
      match jsonLoop maxdepth n (depth + 1) { inobj := ch = 123, inarray := ch ≠ 123 } rest with
      | .error err => .error err
      | .ok (oc, closing) =>
        let text := (ch :: rest).take ((ch :: rest).length - (closing.length - 1))
        let v := if ch = 123 then OdictValue.object oc else .array oc
        jsonLoop maxdepth n depth (st.closed key v text) (closing.drop 1)

/-- `json_decode_odict` -/
def jsonDecodeOdict (str : Bytes) : Except Errno Odict :=
  (jsonLoop F maxdepth str.length 0 {} str).map (·.1)

end LibRe.Json
