import Prism.Types.Event

/-!
The compact JSON text that `serde_json::to_vec` writes for an event.
-/

namespace Prism

inductive Json where
  | null
  | bool (value : Bool)
  | int (value : Int)
  | float (value : F64)
  | str (value : String)
  | arr (items : List Json)
  | obj (fields : List (String × Json))

namespace Json

/-- One character of a string, escaped where JSON needs it. -/
def escape (c : Char) : List Char :=
  let n := c.toNat
  if c = '"' then ['\\', '"'] else if c = '\\' then ['\\', '\\'] else if n = 8 then ['\\', 'b']
  else if n = 9 then ['\\', 't'] else if n = 10 then ['\\', 'n'] else if n = 12 then ['\\', 'f']
  else if n = 13 then ['\\', 'r']
  else if n < 32 then ['\\', 'u', '0', '0', hexDigit (n / 16), hexDigit (n % 16)]
  else [c]

def quote (s : String) : List Char := '"' :: s.toList.flatMap escape ++ ['"']

def intText (i : Int) : List Char :=
  if i < 0 then '-' :: Nat.toDigits 10 i.natAbs else Nat.toDigits 10 i.natAbs

/-- A number without its trailing decimal zeros, and how many there were. -/
def stripZeros : Nat → Nat → Nat × Nat
  | 0, n => (n, 0)
  | fuel + 1, n =>
    if n % 10 = 0 then
      let (rest, zeros) := stripZeros fuel (n / 10)
      (rest, zeros + 1)
    else (n, 0)

/-- The shortest text that reads back: plain digits up to 16 places, scientific beyond. -/
def floatText (x : F64) : List Char :=
  if !x.isFinite then ['n', 'u', 'l', 'l']
  else
    let sign := if x.negative then ['-'] else []
    if x.isZero then sign ++ ['0', '.', '0']
    else
      let all := x.shortest F64.maxPlaces (F64.maxPlaces + F64.maxWhole)
      let (mantissa, zeros) := stripZeros (F64.maxPlaces + F64.maxWhole) all
      let digits := Nat.toDigits 10 mantissa
      let exponent : Int := zeros - F64.maxPlaces
      let point : Int := digits.length + exponent
      if 0 ≤ exponent ∧ point ≤ 16 then
        sign ++ digits ++ List.replicate exponent.toNat '0' ++ ['.', '0']
      else if 0 < point ∧ point ≤ 16 then
        sign ++ digits.take point.toNat ++ '.' :: digits.drop point.toNat
      else if -5 < point ∧ point ≤ 0 then
        sign ++ ['0', '.'] ++ List.replicate (-point).toNat '0' ++ digits
      else
        let fraction := if digits.length = 1 then [] else '.' :: digits.drop 1
        sign ++ digits.take 1 ++ fraction ++ 'e' :: intText (point - 1)

def commaJoined : List (List Char) → List Char
  | [] => []
  | [s] => s
  | s :: rest => s ++ ',' :: commaJoined rest

mutual

def render : Json → List Char
  | .null => ['n', 'u', 'l', 'l']
  | .bool b => if b then ['t', 'r', 'u', 'e'] else ['f', 'a', 'l', 's', 'e']
  | .int i => intText i
  | .float x => floatText x
  | .str s => quote s
  | .arr items => '[' :: commaJoined (renderItems items) ++ [']']
  | .obj fields => '\x7b' :: commaJoined (renderFields fields) ++ ['\x7d']

def renderItems : List Json → List (List Char)
  | [] => []
  | j :: rest => render j :: renderItems rest

def renderFields : List (String × Json) → List (List Char)
  | [] => []
  | (name, j) :: rest => (quote name ++ ':' :: render j) :: renderFields rest

end

def bytes (j : Json) : Bytes := j.render.flatMap String.utf8EncodeChar

def ofOption {α : Type} (f : α → Json) : Option α → Json
  | none => .null
  | some a => f a

end Json

def AttrValue.toJson : AttrValue → Json
  | .str s => .obj [("type", .str "str"), ("value", .str s)]
  | .int i => .obj [("type", .str "int"), ("value", .int i)]
  | .double d => .obj [("type", .str "double"), ("value", .float d)]
  | .bool b => .obj [("type", .str "bool"), ("value", .bool b)]

def Event.toJson (e : Event) : Json :=
  .obj [("event_id", .str e.eventId), ("tenant_id", .str e.tenantId),
    ("event_time", .int e.eventTime), ("observed_time", .int e.observedTime),
    ("event_name", .str e.eventName), ("cost", .float e.cost), ("error", .bool e.error),
    ("body", .str e.body), ("trace_id", .str e.traceId), ("span_id", .str e.spanId),
    ("attributes", .obj (e.attributes.toList.map fun (key, value) => (key, value.toJson))),
    ("idempotency_key", Json.ofOption .str e.idempotencyKey)]

end Prism
