import ToyTstat.Lib.CString

/-!
# `jsmn.c`: the JSON tokenizer

Built without `JSMN_STRICT` and without `JSMN_PARENT_LINKS`. `none` means that the code
reads outside an object, or that the loops need more than `fuel` iterations.
-/

open CLib

namespace ToyTstat.Code

inductive jsmntype_t
  | JSMN_UNDEFINED
  | JSMN_OBJECT
  | JSMN_ARRAY
  | JSMN_STRING
  | JSMN_PRIMITIVE
deriving DecidableEq, Repr

open jsmntype_t

def JSMN_ERROR_NOMEM : Int := -1
def JSMN_ERROR_INVAL : Int := -2
def JSMN_ERROR_PART : Int := -3

structure jsmntok_t where
  type : jsmntype_t
  start : Int
  end_ : Int
  size : Int
deriving DecidableEq, Repr

structure jsmn_parser_t where
  pos : Nat
  toknext : Nat
  toksuper : Int
deriving DecidableEq, Repr

def jsmn_init : jsmn_parser_t := ⟨0, 0, -1⟩

/-- The token array, or `NULL`. Only the slots that have been filled are listed: the ones from
`toknext` on hold whatever was there before. -/
abbrev Tokens := Option (List jsmntok_t)

/-- The new slot is the last one of the list. Its type is not set here. -/
def jsmn_alloc_token (parser : jsmn_parser_t) (tokens : List jsmntok_t) (num_tokens : Nat) :
    Option (jsmn_parser_t × List jsmntok_t) :=
  if num_tokens ≤ parser.toknext then none
  else some ({ parser with toknext := parser.toknext + 1 },
    tokens ++ [⟨JSMN_UNDEFINED, -1, -1, 0⟩])

/-- Fills the slot that `jsmn_alloc_token` has just given. -/
def jsmn_fill_token (tokens : List jsmntok_t) (type : jsmntype_t) (start end_ : Int) :
    List jsmntok_t :=
  tokens.dropLast ++ [⟨type, start, end_, 0⟩]

def isSpace (c : Byte) : Bool := c = ch '\t' ∨ c = ch '\r' ∨ c = ch '\n' ∨ c = ch ' '

/-! ## Primitives -/

def endsPrimitive (c : Byte) : Bool :=
  c = ch ':' ∨ isSpace c ∨ c = ch ',' ∨ c = ch ']' ∨ c = ch '}'

/-- The loop of `jsmn_parse_primitive`: the position at `found`, or `none` for a bad character. -/
def primitive_loop (js : List Byte) (len : Nat) : Nat → Nat → Option (Option Nat)
  | 0, _ => none
  | fuel + 1, pos =>
    if len ≤ pos then some (some pos)
    else (rd js pos).bind fun c =>
      if c = 0 ∨ endsPrimitive c then some (some pos)
      else if c.toNat < 32 ∨ 127 ≤ c.toNat then some none
      else primitive_loop js len fuel (u32 (pos + 1))

/-- On an error the parser is put back to where it was. -/
def jsmn_parse_primitive (fuel : Nat) (parser : jsmn_parser_t) (js : List Byte) (len : Nat)
    (tokens : Tokens) (num_tokens : Nat) : Option (Int × jsmn_parser_t × Tokens) :=
  (primitive_loop js len fuel parser.pos).bind fun found =>
    match found, tokens with
    | none, _ => some (JSMN_ERROR_INVAL, parser, tokens)
    | some pos, none => some (0, { parser with pos := u32 (pos + (2 ^ 32 - 1)) }, none)
    | some pos, some ts =>
      match jsmn_alloc_token parser ts num_tokens with
      | none => some (JSMN_ERROR_NOMEM, parser, tokens)
      | some (parser', ts') =>
        some (0, { parser' with pos := u32 (pos + (2 ^ 32 - 1)) },
          some (jsmn_fill_token ts' JSMN_PRIMITIVE (i32 parser.pos) (i32 pos)))

/-! ## Strings -/

def isHex (c : Byte) : Bool :=
  (48 ≤ c.toNat ∧ c.toNat ≤ 57) ∨ (65 ≤ c.toNat ∧ c.toNat ≤ 70) ∨ (97 ≤ c.toNat ∧ c.toNat ≤ 102)

def isEscape (c : Byte) : Bool :=
  c = ch '"' ∨ c = ch '/' ∨ c = ch '\\' ∨ c = ch 'b' ∨ c = ch 'f' ∨ c = ch 'r' ∨ c = ch 'n' ∨ c = ch 't'

/-- The loop over the four digits of `\uXXXX`: the position after them, or `none` for a bad one. -/
def hex_loop (js : List Byte) (len : Nat) : Nat → Nat → Option (Option Nat)
  | 0, pos => some (some pos)
  | i + 1, pos =>
    if len ≤ pos then some (some pos)
    else (rd js pos).bind fun c =>
      if c = 0 then some (some pos)
      else if isHex c then hex_loop js len i (u32 (pos + 1))
      else some none

/-- How the loop of `jsmn_parse_string` ends. -/
inductive StringEnd
  | quote (pos : Nat)
  | inval
  | part
deriving DecidableEq, Repr

def string_loop (js : List Byte) (len : Nat) : Nat → Nat → Option StringEnd
  | 0, _ => none
  | fuel + 1, pos =>
    if len ≤ pos then some .part
    else (rd js pos).bind fun c =>
      if c = 0 then some .part
      else if c = ch '"' then some (.quote pos)
      else if c = ch '\\' ∧ u32 (pos + 1) < len then
        (rd js (u32 (pos + 1))).bind fun e =>
          if isEscape e then string_loop js len fuel (u32 (u32 (pos + 1) + 1))
          else if e = ch 'u' then
            (hex_loop js len 4 (u32 (u32 (pos + 1) + 1))).bind fun r =>
              match r with
              | none => some .inval
              | some pos' => string_loop js len fuel (u32 (u32 (pos' + (2 ^ 32 - 1)) + 1))
          else some .inval
      else string_loop js len fuel (u32 (pos + 1))

/-- On an error the parser is put back to the opening quote. -/
def jsmn_parse_string (fuel : Nat) (parser : jsmn_parser_t) (js : List Byte) (len : Nat)
    (tokens : Tokens) (num_tokens : Nat) : Option (Int × jsmn_parser_t × Tokens) :=
  (string_loop js len fuel (u32 (parser.pos + 1))).bind fun r =>
    match r, tokens with
    | .inval, _ => some (JSMN_ERROR_INVAL, parser, tokens)
    | .part, _ => some (JSMN_ERROR_PART, parser, tokens)
    | .quote pos, none => some (0, { parser with pos := pos }, none)
    | .quote pos, some ts =>
      match jsmn_alloc_token parser ts num_tokens with
      | none => some (JSMN_ERROR_NOMEM, parser, tokens)
      | some (parser', ts') =>
        some (0, { parser' with pos := pos },
          some (jsmn_fill_token ts' JSMN_STRING (i32 (i32 parser.pos + 1)) (i32 pos)))

/-! ## The main loop -/

structure ParseState where
  parser : jsmn_parser_t
  tokens : Tokens
  count : Int
deriving DecidableEq, Repr

inductive Flow
  | next (s : ParseState)
  | ret (r : Int) (s : ParseState)
deriving DecidableEq, Repr

def isContainer (t : jsmntype_t) : Bool := t = JSMN_ARRAY ∨ t = JSMN_OBJECT

/-- An array or object whose end has not been seen. -/
def isOpen (t : jsmntok_t) : Bool := t.start ≠ -1 ∧ t.end_ = -1

/-- The loops `for (i = n - 1; i >= 0; i--)` that look for a token: its index, or -1. -/
def scan_back (p : jsmntok_t → Bool) (tokens : List jsmntok_t) : Nat → Option Int
  | 0 => some (-1)
  | i + 1 => (tokens[i]?).bind fun t => if p t then some i else scan_back p tokens i

/-- `tokens[toksuper].size++`, unless there is no superior token. -/
def bump_super (toksuper : Int) (tokens : List jsmntok_t) : Option (List jsmntok_t) :=
  if toksuper = -1 then some tokens
  else if toksuper < 0 then none
  else (tokens[toksuper.toNat]?).map fun t => tokens.set toksuper.toNat { t with size := t.size + 1 }

def parse_open (s : ParseState) (num_tokens : Nat) (type : jsmntype_t) : Option Flow :=
  let s := { s with count := s.count + 1 }
  match s.tokens with
  | none => some (.next s)
  | some ts =>
    match jsmn_alloc_token s.parser ts num_tokens with
    | none => some (.ret JSMN_ERROR_NOMEM s)
    | some (parser, ts) =>
      (bump_super parser.toksuper ts).map fun ts =>
        let ts := ts.modify (ts.length - 1) fun t =>
          { t with type := type, start := i32 parser.pos }
        .next { s with
          parser := { parser with toksuper := i32 (parser.toknext - 1) }, tokens := some ts }

def parse_close (s : ParseState) (type : jsmntype_t) : Option Flow :=
  match s.tokens with
  | none => some (.next s)
  | some ts =>
    (scan_back isOpen ts s.parser.toknext).bind fun i =>
      -- an unmatched closing bracket
      if i = -1 then some (.ret JSMN_ERROR_INVAL s)
      else (ts[i.toNat]?).bind fun token =>
        if token.type ≠ type then some (.ret JSMN_ERROR_INVAL s)
        else
          let ts := ts.set i.toNat { token with end_ := i32 (u32 (s.parser.pos + 1)) }
          (scan_back isOpen ts (i.toNat + 1)).map fun super =>
            .next { s with parser := { s.parser with toksuper := super }, tokens := some ts }

def parse_comma (s : ParseState) : Option Flow :=
  match s.tokens with
  | none => some (.next s)
  | some ts =>
    if s.parser.toksuper = -1 then some (.next s)
    else if s.parser.toksuper < 0 then none
    else (ts[s.parser.toksuper.toNat]?).bind fun t =>
      if isContainer t.type then some (.next s)
      else (scan_back (fun t => isContainer t.type && isOpen t) ts s.parser.toknext).map fun i =>
        if i = -1 then .next s else .next { s with parser := { s.parser with toksuper := i } }

/-- What follows `jsmn_parse_string` and `jsmn_parse_primitive`. -/
def parse_scalar (s : ParseState) (r : Int × jsmn_parser_t × Tokens) : Option Flow :=
  let s' := { s with parser := r.2.1, tokens := r.2.2 }
  if r.1 < 0 then some (.ret r.1 s')
  else
    let s' := { s' with count := s'.count + 1 }
    match s'.tokens with
    | none => some (.next s')
    | some ts => (bump_super s'.parser.toksuper ts).map fun ts => .next { s' with tokens := some ts }

/-- The `switch` on the character at `pos`. -/
def parse_switch (fuel : Nat) (js : List Byte) (len num_tokens : Nat) (c : Byte) (s : ParseState) :
    Option Flow :=
  if c = ch '{' then parse_open s num_tokens JSMN_OBJECT
  else if c = ch '[' then parse_open s num_tokens JSMN_ARRAY
  else if c = ch '}' then parse_close s JSMN_OBJECT
  else if c = ch ']' then parse_close s JSMN_ARRAY
  else if c = ch '"' then
    (jsmn_parse_string fuel s.parser js len s.tokens num_tokens).bind (parse_scalar s)
  else if isSpace c then some (.next s)
  else if c = ch ':' then
    some (.next { s with parser := { s.parser with toksuper := i32 (s.parser.toknext - 1) } })
  else if c = ch ',' then parse_comma s
  else (jsmn_parse_primitive fuel s.parser js len s.tokens num_tokens).bind (parse_scalar s)

/-- After the last character: no container may be left open. -/
def parse_end (s : ParseState) : Option (Int × ParseState) :=
  match s.tokens with
  | none => some (s.count, s)
  | some ts => (scan_back isOpen ts s.parser.toknext).map fun i =>
    if i = -1 then (s.count, s) else (JSMN_ERROR_PART, s)

def parse_loop (js : List Byte) (len num_tokens : Nat) : Nat → ParseState → Option (Int × ParseState)
  | 0, _ => none
  | fuel + 1, s =>
    if len ≤ s.parser.pos then parse_end s
    else (rd js s.parser.pos).bind fun c =>
      if c = 0 then parse_end s
      else (parse_switch fuel js len num_tokens c s).bind fun flow =>
        match flow with
        | .ret r s => some (r, s)
        | .next s =>
          parse_loop js len num_tokens fuel { s with parser := { s.parser with pos := u32 (s.parser.pos + 1) } }

/-- The result, and the parser and the tokens as they are left. -/
def jsmn_parse (fuel : Nat) (parser : jsmn_parser_t) (js : List Byte) (len : Nat) (tokens : Tokens)
    (num_tokens : Nat) : Option (Int × jsmn_parser_t × Tokens) :=
  (parse_loop js len num_tokens fuel ⟨parser, tokens, i32 parser.toknext⟩).map fun (r, s) =>
    (r, s.parser, s.tokens)

/-! ## Patterns -/

def jsmn_parse_pattern (fuel : Nat) (patt_str : List Byte) (patt_tokens : Tokens) (patt_count : Nat) :
    Option (Int × jsmn_parser_t × Tokens) :=
  (strlen patt_str).bind fun len => jsmn_parse fuel jsmn_init patt_str len patt_tokens patt_count

/-- `t->end - t->start`, which must be an `int`. -/
def tok_len (t : jsmntok_t) : Option Int :=
  let len := t.end_ - t.start
  if -2 ^ 31 ≤ len ∧ len < 2 ^ 31 then some len else none

/-- The first condition of the loop of `jsmn_pattern_matches`. -/
def is_wildcard (patt_str : List Byte) (p : jsmntok_t) : Option Bool :=
  if p.type ≠ JSMN_PRIMITIVE then some false
  else (tok_len p).bind fun p_len =>
    if p_len ≠ 1 then some false else (rd patt_str p.start).map fun c => c = ch '?'

/-- One iteration: whether the loop goes on. -/
def token_matches (str : List Byte) (t : jsmntok_t) (patt_str : List Byte) (p : jsmntok_t) : Option Bool :=
  (is_wildcard patt_str p).bind fun wildcard =>
    if wildcard then some true
    else if p.type = JSMN_STRING ∨ p.type = JSMN_PRIMITIVE then
      (tok_len t).bind fun t_len => (tok_len p).bind fun p_len =>
        if t.type ≠ p.type then some false
        else if t_len ≠ p_len then some false
        else (ptr str t.start).bind fun s => (ptr patt_str p.start).bind fun patt =>
          (strncmp s patt (usize p_len)).map fun r => r = 0
    else some true

/-- The loop, from `i` on, when `left` iterations are left. -/
def matches_loop (str : List Byte) (tokens : List jsmntok_t) (patt_str : List Byte) (patt_tokens : List jsmntok_t) :
    Nat → Nat → Option Bool
  | 0, _ => some true
  | left + 1, i =>
    (tokens[i]?).bind fun t => (patt_tokens[i]?).bind fun p => (token_matches str t patt_str p).bind fun goesOn =>
      if goesOn then matches_loop str tokens patt_str patt_tokens left (i + 1) else some false

def jsmn_pattern_matches (str : List Byte) (tokens : List jsmntok_t) (count : Int) (patt_str : List Byte)
    (patt_tokens : List jsmntok_t) (patt_count : Int) (allow_extras : Bool) : Option Bool :=
  if ¬ allow_extras ∧ count ≠ patt_count then some false
  else if count < patt_count then some false
  else matches_loop str tokens patt_str patt_tokens count.toNat 0

end ToyTstat.Code
