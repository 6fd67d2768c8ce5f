import LServer.Text.Decimal

set_option autoImplicit false

namespace LServer

/-- A `basic_json`; an object's members are kept in key order, one per key. -/
inductive Json where
  | null
  | bool (b : Bool)
  | number
  | string (s : Bytes)
  | array (elems : List Json)
  | object (members : List (Bytes × Json))

namespace Json

inductive Token where
  | beginArray | endArray | beginObject | endObject | nameSeparator | valueSeparator
  | literalTrue | literalFalse | literalNull
  | valueString (s : Bytes)
  | valueNumber
  | endOfInput
  deriving DecidableEq, Repr

def isWs (b : UInt8) : Bool := b == 32 || b == 9 || b == 10 || b == 13

def hexValue (b : UInt8) : Option Nat :=
  if 48 ≤ b.toNat ∧ b.toNat ≤ 57 then some (b.toNat - 48)
  else if 65 ≤ b.toNat ∧ b.toNat ≤ 70 then some (b.toNat - 55)
  else if 97 ≤ b.toNat ∧ b.toNat ≤ 102 then some (b.toNat - 87)
  else none

def hex4 (a b c d : UInt8) : Option Nat := do
  let a ← hexValue a
  let b ← hexValue b
  let c ← hexValue c
  let d ← hexValue d
  pure (((a * 16 + b) * 16 + c) * 16 + d)

def utf8Encode (cp : Nat) : Bytes :=
  if cp < 0x80 then [cp.toUInt8]
  else if cp < 0x800 then [(0xC0 + cp / 64).toUInt8, (0x80 + cp % 64).toUInt8]
  else if cp < 0x10000 then
    [(0xE0 + cp / 4096).toUInt8, (0x80 + cp / 64 % 64).toUInt8, (0x80 + cp % 64).toUInt8]
  else
    [(0xF0 + cp / 262144).toUInt8, (0x80 + cp / 4096 % 64).toUInt8,
      (0x80 + cp / 64 % 64).toUInt8, (0x80 + cp % 64).toUInt8]

def scanEscape : Bytes → Option (Bytes × Bytes)
  | 34 :: r => some ([34], r)
  | 92 :: r => some ([92], r)
  | 47 :: r => some ([47], r)
  | 98 :: r => some ([8], r)
  | 102 :: r => some ([12], r)
  | 110 :: r => some ([10], r)
  | 114 :: r => some ([13], r)
  | 116 :: r => some ([9], r)
  | 117 :: a :: b :: c :: d :: r => do
    let cp ← hex4 a b c d
    if 0xD800 ≤ cp ∧ cp ≤ 0xDBFF then
      match r with
      | 92 :: 117 :: e :: f :: g :: h :: r' => do
        let lo ← hex4 e f g h
        if 0xDC00 ≤ lo ∧ lo ≤ 0xDFFF then
          some (utf8Encode (0x10000 + (cp - 0xD800) * 0x400 + (lo - 0xDC00)), r')
        else none
      | _ => none
    else if 0xDC00 ≤ cp ∧ cp ≤ 0xDFFF then none
    else some (utf8Encode cp, r)
  | _ => none

def utf8Ranges (n : Nat) : Option (List (Nat × Nat)) :=
  if n < 0x80 then some []
  else if 0xC2 ≤ n ∧ n ≤ 0xDF then some [(0x80, 0xBF)]
  else if n = 0xE0 then some [(0xA0, 0xBF), (0x80, 0xBF)]
  else if (0xE1 ≤ n ∧ n ≤ 0xEC) ∨ n = 0xEE ∨ n = 0xEF then some [(0x80, 0xBF), (0x80, 0xBF)]
  else if n = 0xED then some [(0x80, 0x9F), (0x80, 0xBF)]
  else if n = 0xF0 then some [(0x90, 0xBF), (0x80, 0xBF), (0x80, 0xBF)]
  else if 0xF1 ≤ n ∧ n ≤ 0xF3 then some [(0x80, 0xBF), (0x80, 0xBF), (0x80, 0xBF)]
  else if n = 0xF4 then some [(0x80, 0x8F), (0x80, 0xBF), (0x80, 0xBF)]
  else none

def takeInRanges : List (Nat × Nat) → Bytes → Option (Bytes × Bytes)
  | [], r => some ([], r)
  | (lo, hi) :: rs, c :: r =>
    if lo ≤ c.toNat ∧ c.toNat ≤ hi then (fun x => (c :: x.1, x.2)) <$> takeInRanges rs r else none
  | _ :: _, [] => none

def scanString : Nat → Bytes → Bytes → Option (Bytes × Bytes)
  | 0, _, _ => none
  | fuel + 1, bs, acc =>
    match bs with
    | [] => none
    | 34 :: r => some (acc.reverse, r)
    | 92 :: r => do
      let (e, r) ← scanEscape r
      scanString fuel r (e.reverse ++ acc)
    | b :: r =>
      if b.toNat < 0x20 then none
      else do
        let rs ← utf8Ranges b.toNat
        let (cs, r) ← takeInRanges rs r
        scanString fuel r ((b :: cs).reverse ++ acc)

def floatFinite (m : Nat) (e : Int) : Bool :=
  if 0 ≤ e then decide (m * 10 ^ e.toNat < 2 ^ 1024 - 2 ^ 970)
  else decide (m < (2 ^ 1024 - 2 ^ 970) * 10 ^ (-e).toNat)

def scanExponent (r : Bytes) : Option (Int × Bytes) :=
  let (neg, r) : Bool × Bytes := match r with
    | 45 :: r => (true, r)
    | 43 :: r => (false, r)
    | r => (false, r)
  let ds := r.takeWhile isDigit
  if ds.isEmpty then none
  else some (if neg then -(digitsValue ds : Int) else digitsValue ds, r.dropWhile isDigit)

def scanNumber (bs : Bytes) : Option (Bool × Bytes) := do
  let (neg, r) : Bool × Bytes := match bs with
    | 45 :: r => (true, r)
    | r => (false, r)
  let (ip, r) ← match r with
    | 48 :: r => some ([48], r)
    | d :: r => if isDigit d then some (d :: r.takeWhile isDigit, r.dropWhile isDigit) else none
    | [] => none
  let (fp, r) ← match r with
    | 46 :: r =>
      if (r.takeWhile isDigit).isEmpty then none else some (r.takeWhile isDigit, r.dropWhile isDigit)
    | r => some ([], r)
  let (ex, r) ← match r with
    | 101 :: r | 69 :: r => (fun x => (some x.1, x.2)) <$> scanExponent r
    | r => some (none, r)
  let integral := fp.isEmpty && ex.isNone &&
    (if neg then digitsValue ip ≤ 2 ^ 63 else digitsValue ip < 2 ^ 64)
  pure (integral || floatFinite (digitsValue (ip ++ fp)) (ex.getD 0 - fp.length), r)

def lexTokens : Nat → Bytes → Option (List Token)
  | 0, _ => none
  | fuel + 1, bs =>
    match bs.dropWhile isWs with
    | [] => some [.endOfInput]
    | 0 :: _ => some [.endOfInput]
    | 91 :: r => (.beginArray :: ·) <$> lexTokens fuel r
    | 93 :: r => (.endArray :: ·) <$> lexTokens fuel r
    | 123 :: r => (.beginObject :: ·) <$> lexTokens fuel r
    | 125 :: r => (.endObject :: ·) <$> lexTokens fuel r
    | 58 :: r => (.nameSeparator :: ·) <$> lexTokens fuel r
    | 44 :: r => (.valueSeparator :: ·) <$> lexTokens fuel r
    | 116 :: 114 :: 117 :: 101 :: r => (.literalTrue :: ·) <$> lexTokens fuel r
    | 102 :: 97 :: 108 :: 115 :: 101 :: r => (.literalFalse :: ·) <$> lexTokens fuel r
    | 110 :: 117 :: 108 :: 108 :: r => (.literalNull :: ·) <$> lexTokens fuel r
    | 34 :: r => do
      let (s, r) ← scanString (r.length + 1) r []
      (.valueString s :: ·) <$> lexTokens fuel r
    | b :: r =>
      if b == 45 || isDigit b then do
        let (finite, r) ← scanNumber (b :: r)
        if finite then (.valueNumber :: ·) <$> lexTokens fuel r else none
      else none

def lex (bs : Bytes) : Option (List Token) :=
  match bs with
  | 0xEF :: 0xBB :: 0xBF :: r => lexTokens (r.length + 1) r
  | 0xEF :: _ => none
  | _ => lexTokens (bs.length + 1) bs

def bytesLt : Bytes → Bytes → Bool
  | [], [] => false
  | [], _ :: _ => true
  | _ :: _, [] => false
  | a :: as, b :: bs => a < b || (a == b && bytesLt as bs)

def objectInsert (k : Bytes) (v : Json) : List (Bytes × Json) → List (Bytes × Json)
  | [] => [(k, v)]
  | (k', v') :: ms =>
    if k = k' then (k, v) :: ms
    else if bytesLt k k' then (k, v) :: (k', v') :: ms
    else (k', v') :: objectInsert k v ms

inductive Frame where
  | array (elems : List Json)
  | object (members : List (Bytes × Json)) (key : Bytes)

def parseTokens : List Frame → Option Json → List Token → Option Json
  | st, none, .beginArray :: .endArray :: ts => parseTokens st (some (.array [])) ts
  | st, none, .beginArray :: ts => parseTokens (.array [] :: st) none ts
  | st, none, .beginObject :: .endObject :: ts => parseTokens st (some (.object [])) ts
  | st, none, .beginObject :: .valueString k :: .nameSeparator :: ts =>
    parseTokens (.object [] k :: st) none ts
  | st, none, .literalTrue :: ts => parseTokens st (some (.bool true)) ts
  | st, none, .literalFalse :: ts => parseTokens st (some (.bool false)) ts
  | st, none, .literalNull :: ts => parseTokens st (some .null) ts
  | st, none, .valueString s :: ts => parseTokens st (some (.string s)) ts
  | st, none, .valueNumber :: ts => parseTokens st (some .number) ts
  | [], some v, .endOfInput :: _ => some v
  | .array es :: st, some v, .valueSeparator :: ts => parseTokens (.array (es ++ [v]) :: st) none ts
  | .array es :: st, some v, .endArray :: ts => parseTokens st (some (.array (es ++ [v]))) ts
  | .object ms k :: st, some v, .valueSeparator :: .valueString k' :: .nameSeparator :: ts =>
    parseTokens (.object (objectInsert k v ms) k' :: st) none ts
  | .object ms k :: st, some v, .endObject :: ts =>
    parseTokens st (some (.object (objectInsert k v ms))) ts
  | _, _, _ => none

/-- `nlohmann::json::parse(text)`; `none` where it throws. -/
def parse (bs : Bytes) : Option Json := (lex bs).bind (parseTokens [] none)

end LServer.Json
