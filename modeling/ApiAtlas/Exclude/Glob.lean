import ApiAtlas.Path

/-!
Globs over byte strings. A glob is read into tokens, and matching keeps all the positions that one
token after the other can lead to, so it decides membership in the language the tokens denote.
-/
namespace ApiAtlas.Glob

inductive Token where
  | literal (c : Char)
  /-- `?`: one byte that is no slash. -/
  | any
  /-- `*`: any run without a slash. -/
  | star
  /-- `**` and a slash at the front: nothing, or anything that ends in a slash. -/
  | anyPrefix
  /-- A slash and `**` at the end: a slash and anything. -/
  | anySuffix
  /-- `**` between slashes: one slash, or two with anything between. -/
  | anyMiddle
  | oneOf (negated : Bool) (ranges : List (Char × Char))
  | alternates (branches : List (List Token))
  deriving Repr, Inhabited

inductive Error where
  | reversedRange
  | unopened
  | unclosed
  | danglingEscape
  deriving DecidableEq, Repr

/-- The inside of a class, whose last range may still be open; `none` if it is never closed. -/
def readClass (first openRange : Bool) (ranges : List (Char × Char)) :
    List Char → Except Error (Option (List (Char × Char) × List Char))
  | [] => .ok none
  | c :: cs =>
    if c = ']' ∧ !first then
      .ok (some ((if openRange then ('-', '-') :: ranges else ranges).reverse, cs))
    else if c = '-' ∧ !first ∧ !openRange then readClass false true ranges cs
    else if openRange then
      match ranges with
      | (low, _) :: more =>
        if c < low then .error .reversedRange else readClass false false ((low, c) :: more) cs
      | [] => readClass false false [(c, c)] cs
    else readClass false false ((c, c) :: ranges) cs

structure Level where
  done : List (List Token)
  current : List Token

def Level.push (level : Level) (token : Token) : Level :=
  { level with current := token :: level.current }

/-- Replaces the slash before `**`; a token that stands for `**` already stays. -/
def Level.widen (level : Level) (token : Token) : Level :=
  match level.current with
  | .anyPrefix :: _ => level
  | .anySuffix :: _ => level
  | _ :: more => { level with current := token :: more }
  | [] => { level with current := [token] }

def readDoubleStar (previous : Option Char) (nested : Bool) (level : Level) (rest : List Char) :
    Level × Option Char × List Char :=
  let stars := ((level.push .star).push .star, some '*', rest)
  if level.current.isEmpty then
    match rest with
    | [] => (level.push .anyPrefix, some '*', [])
    | '/' :: after => (level.push .anyPrefix, some '/', after)
    | _ => stars
  else if previous ≠ some '/' ∧ !(nested && (previous = some ',' || previous = some '\x7b')) then
    stars
  else
    match rest with
    | [] => (level.widen .anySuffix, some '*', [])
    | '/' :: after => (level.widen .anyMiddle, some '/', after)
    | c :: _ =>
      if nested && (c = ',' || c = '\x7d') then (level.widen .anySuffix, some '*', rest) else stars

def readTokens : (limit : Nat) → (previous : Option Char) → (literalBracket : Bool) → Level →
    List Level → List Char → Except Error (List Token)
  | _, _, _, level, outer, [] =>
    if outer.isEmpty then .ok level.current.reverse else .error .unclosed
  | 0, _, _, _, _, _ :: _ => .error .unclosed
  | limit + 1, previous, literalBracket, level, outer, c :: cs =>
    match c with
    | '?' => readTokens limit (some c) literalBracket (level.push .any) outer cs
    | '*' =>
      match cs with
      | '*' :: rest =>
        let (level, previous, rest) := readDoubleStar previous (!outer.isEmpty) level rest
        readTokens limit previous literalBracket level outer rest
      | _ => readTokens limit (some c) literalBracket (level.push .star) outer cs
    | '[' =>
      if literalBracket then readTokens limit (some c) true (level.push (.literal c)) outer cs
      else
        let (negated, inside) :=
          match cs with
          | '!' :: rest => (true, rest)
          | '^' :: rest => (true, rest)
          | _ => (false, cs)
        match readClass true false [] inside with
        | .error e => .error e
        | .ok none => readTokens limit (some c) true (level.push (.literal c)) outer cs
        | .ok (some (ranges, rest)) =>
          readTokens limit (some ']') false (level.push (.oneOf negated ranges)) outer rest
    | '\x7b' => readTokens limit (some c) literalBracket ⟨[], []⟩ (level :: outer) cs
    | '\x7d' =>
      match outer with
      | [] => .error .unopened
      | enclosing :: outer =>
        let branches := (level.current.reverse :: level.done).reverse
        readTokens limit (some c) literalBracket (enclosing.push (.alternates branches)) outer cs
    | ',' =>
      let level :=
        if outer.isEmpty then level.push (.literal c)
        else ⟨level.current.reverse :: level.done, []⟩
      readTokens limit (some c) literalBracket level outer cs
    | '\\' =>
      match cs with
      | [] => .error .danglingEscape
      | d :: rest => readTokens limit (some d) literalBracket (level.push (.literal d)) outer rest
    | c => readTokens limit (some c) literalBracket (level.push (.literal c)) outer cs

def read (text : List Char) : Except Error (List Token) :=
  readTokens text.length none false ⟨[], []⟩ [] text

/-- Byte ranges of a class. Ends that take several bytes contribute each byte by itself, and the
range runs from the last byte of its low end to the first of its high end. -/
def byteRanges (range : Char × Char) : List (UInt8 × UInt8) :=
  let low := Utf8.encodeChar range.1
  let high := Utf8.encodeChar range.2
  if range.1 = range.2 then low.map fun b => (b, b)
  else
    (low.dropLast.map fun b => (b, b)) ++ [(low.getLastD 0, high.headD 0)] ++
      high.tail.map fun b => (b, b)

def inClass (negated : Bool) (ranges : List (Char × Char)) (b : UInt8) : Bool :=
  (ranges.any fun r => (byteRanges r).any fun (low, high) => low ≤ b && b ≤ high) != negated

abbrev Marks := List Bool

def atFront (bs : Bytes) : Marks := true :: bs.map fun _ => false

def pastOne (p : UInt8 → Bool) (bs : Bytes) (marks : Marks) : Marks :=
  false :: List.zipWith (fun b mark => mark && p b) bs marks

def pastRun (p : UInt8 → Bool) (reached : Bool) : Bytes → Marks → Marks
  | _, [] => []
  | [], mark :: _ => [reached || mark]
  | b :: bs, mark :: marks =>
    (reached || mark) :: pastRun p ((reached || mark) && p b) bs marks

def pastSlash (bs : Bytes) (marks : Marks) : Marks := pastOne (· = Path.slash) bs marks

def pastAnything (bs : Bytes) (marks : Marks) : Marks := pastRun (fun _ => true) false bs marks

def either (a b : Marks) : Marks := List.zipWith (· || ·) a b

mutual

/-- Whether a token denotes the empty string for want of branches that denote anything. -/
def isVoid : Token → Bool
  | .alternates branches => allVoidBranches branches
  | _ => false

def allVoid : List Token → Bool
  | [] => true
  | token :: tokens => isVoid token && allVoid tokens

def allVoidBranches : List (List Token) → Bool
  | [] => true
  | branch :: branches => allVoid branch && allVoidBranches branches

end

mutual

def past (bs : Bytes) : Token → Marks → Marks
  | .literal c, marks => (Utf8.encodeChar c).foldl (fun marks b => pastOne (· = b) bs marks) marks
  | .any, marks => pastOne (· ≠ Path.slash) bs marks
  | .star, marks => pastRun (· ≠ Path.slash) false bs marks
  | .anyPrefix, marks => either marks (pastSlash bs (pastAnything bs marks))
  | .anySuffix, marks => pastAnything bs (pastSlash bs marks)
  | .anyMiddle, marks =>
    let opened := pastSlash bs marks
    either opened (pastSlash bs (pastAnything bs opened))
  | .oneOf negated ranges, marks => pastOne (inClass negated ranges) bs marks
  | .alternates branches, marks =>
    if allVoidBranches branches then marks else pastAny bs branches marks

def pastAll (bs : Bytes) : List Token → Marks → Marks
  | [], marks => marks
  | token :: tokens, marks => pastAll bs tokens (past bs token marks)

def pastAny (bs : Bytes) : List (List Token) → Marks → Marks
  | [], marks => marks.map fun _ => false
  | branch :: branches, marks =>
    let others := pastAny bs branches marks
    if allVoid branch then others else either (pastAll bs branch marks) others

end

def isLiteral : Token → Bool
  | .literal _ => true
  | _ => false

def isSlash : Token → Bool
  | .literal '/' => true
  | _ => false

def isDot : Token → Bool
  | .literal '.' => true
  | _ => false

/-- A glob that ends in a dot looks for it in the last name of a path, unless it spells out all the
names it is about. -/
def seeksFinalDot (tokens : List Token) : Bool :=
  match tokens.getLast? with
  | some (.literal '.') =>
    match tokens with
    | .anyPrefix :: rest => !(rest.all isLiteral && rest.any isSlash)
    | _ => !tokens.all isLiteral
  | _ => false

def endsAbove (bs : Bytes) : Bool := (Path.splitSlash bs).getLast? = some [Path.dot, Path.dot]

/-- Whether the whole byte string is in the glob's language. A glob that looks for the last name of
a path does not match where there is none. -/
def accepts (tokens : List Token) (bs : Bytes) : Bool :=
  match tokens with
  | [.anyPrefix] => true
  | _ => !(seeksFinalDot tokens && endsAbove bs) && (pastAll bs tokens (atFront bs)).getLastD false

end ApiAtlas.Glob
