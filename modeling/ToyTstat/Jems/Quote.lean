import ToyTstat.Jems.Emit
import ToyTstat.Lib.JsonString

/-!
# Quoted bytes

`jems_bytes` writes any byte, and what it writes can be read in one way only.
-/

open CLib JsonString ToyTstat.Code

namespace ToyTstat.Jems

/-! ## Reading -/

/-- The bytes that a text between quotes stands for: a quote, a backslash or `u00` with two digits may follow a
backslash. -/
def unescape : List Byte → Option (List Byte)
  | [] => some []
  | c :: s =>
    if c ≠ ch '\\' then (unescape s).map (c :: ·)
    else match s with
      | [] => none
      | e :: s =>
        if e = ch '"' ∨ e = ch '\\' then (unescape s).map (e :: ·)
        else match s with
          | z :: z' :: a :: b :: s =>
            if e = ch 'u' ∧ z = ch '0' ∧ z' = ch '0' then
              (hexVal (Char.ofUInt8 a)).bind fun high => (hexVal (Char.ofUInt8 b)).bind fun low =>
                (unescape s).map (UInt8.ofNat (16 * high + low) :: ·)
            else none
          | _ => none

/-- What is behind the first quote that is not escaped. The character behind a backslash is. -/
def behindQuote (isEscaped : Bool) : List Byte → Option (List Byte)
  | [] => none
  | c :: s =>
    if isEscaped then behindQuote false s
    else if c = ch '"' then some s
    else behindQuote (c = ch '\\') s

/-- The literal for some bytes, NUL among them or not. -/
def bytesLiteral (bytes : List Byte) : List Byte := ch '"' :: bytes.flatMap escape ++ [ch '"']

/-! ## One byte -/

theorem escape_cases (b : Byte) :
    (b = ch '"' ∨ b = ch '\\') ∧ escape b = [ch '\\', b] ∨
      (b ≠ ch '"' ∧ b ≠ ch '\\' ∧ 32 ≤ b.toNat ∧ b.toNat < 127) ∧ escape b = [b] ∨
      (b ≠ ch '"' ∧ b ≠ ch '\\') ∧
        escape b = ascii "\\u00" ++ [hexDigit (b.toNat / 16), hexDigit (b.toNat % 16)] := by
  unfold escape
  by_cases hq : b = ch '"' ∨ b = ch '\\'
  · exact .inl ⟨hq, if_pos hq⟩
  rw [not_or] at hq
  by_cases hp : 32 ≤ b.toNat ∧ b.toNat < 127
  · refine .inr (.inl ⟨⟨hq.1, hq.2, hp⟩, ?_⟩)
    rw [if_neg (not_or.mpr hq), if_pos hp]
  · refine .inr (.inr ⟨hq, ?_⟩)
    rw [if_neg (not_or.mpr hq), if_neg hp]

theorem hexDigit_spec : ∀ d, d < 16 → hexVal (Char.ofUInt8 (hexDigit d)) = some d ∧ hexDigit d ≠ ch '"' ∧
    hexDigit d ≠ ch '\\' ∧ 32 ≤ (hexDigit d).toNat ∧ (hexDigit d).toNat < 127 := by
  decide

theorem nibbles (b : Byte) : b.toNat / 16 < 16 ∧ b.toNat % 16 < 16 ∧ 16 * (b.toNat / 16) + b.toNat % 16 = b.toNat := by
  have := b.toNat_lt
  omega

theorem escape_printable (b c : Byte) (hc : c ∈ escape b) : 32 ≤ c.toNat ∧ c.toNat < 127 := by
  rcases escape_cases b with ⟨hq, heq⟩ | ⟨hp, heq⟩ | ⟨-, heq⟩
  · rw [heq, List.mem_pair] at hc
    rcases hq with rfl | rfl <;> rcases hc with rfl | rfl <;> decide
  · rw [heq, List.mem_singleton] at hc
    rw [hc]
    exact hp.2.2
  · obtain ⟨hhigh, hlow, -⟩ := nibbles b
    rw [heq, List.mem_append, List.mem_pair] at hc
    rcases hc with hc | rfl | rfl
    · exact (by decide +kernel : ∀ c ∈ ascii "\\u00", 32 ≤ c.toNat ∧ c.toNat < 127) c hc
    · exact (hexDigit_spec _ hhigh).2.2.2
    · exact (hexDigit_spec _ hlow).2.2.2

theorem escape_u00 (b : Byte) (s : List Byte) :
    ascii "\\u00" ++ [hexDigit (b.toNat / 16), hexDigit (b.toNat % 16)] ++ s =
      ch '\\' :: ch 'u' :: ch '0' :: ch '0' :: hexDigit (b.toNat / 16) :: hexDigit (b.toNat % 16) :: s := by
  rw [List.append_assoc]
  exact congrArg (· ++ _) (by decide : ascii "\\u00" = [ch '\\', ch 'u', ch '0', ch '0'])

theorem unescape_plain {c : Byte} (hbackslash : c ≠ ch '\\') (s : List Byte) :
    unescape (c :: s) = (unescape s).map (c :: ·) := by
  rw [unescape.eq_def (c :: s)]
  exact if_pos hbackslash

theorem unescape_special {e : Byte} (he : e = ch '"' ∨ e = ch '\\') (s : List Byte) :
    unescape (ch '\\' :: e :: s) = (unescape s).map (e :: ·) := by
  rw [unescape.eq_def (ch '\\' :: e :: s)]
  dsimp only
  rw [if_neg (not_not.mpr rfl), if_pos he]

theorem unescape_u00 {a b : Byte} {high low : Nat} (ha : hexVal (Char.ofUInt8 a) = some high)
    (hb : hexVal (Char.ofUInt8 b) = some low) (s : List Byte) :
    unescape (ch '\\' :: ch 'u' :: ch '0' :: ch '0' :: a :: b :: s) =
      (unescape s).map (UInt8.ofNat (16 * high + low) :: ·) := by
  rw [unescape.eq_def (ch '\\' :: _)]
  dsimp only
  rw [if_neg (not_not.mpr rfl), if_neg (by decide), if_pos (by decide), ha, Option.bind_some, hb, Option.bind_some]

theorem unescape_escape_cons (b : Byte) (s : List Byte) : unescape (escape b ++ s) = (unescape s).map (b :: ·) := by
  rcases escape_cases b with ⟨hq, heq⟩ | ⟨hp, heq⟩ | ⟨-, heq⟩
  · rw [heq, List.cons_append, List.singleton_append, unescape_special hq]
  · rw [heq, List.singleton_append, unescape_plain hp.2.1]
  · obtain ⟨hhigh, hlow, hsum⟩ := nibbles b
    rw [heq, escape_u00, unescape_u00 (hexDigit_spec _ hhigh).1 (hexDigit_spec _ hlow).1, hsum, UInt8.ofNat_toNat]

theorem behindQuote_skip {c : Byte} (hquote : c ≠ ch '"') (hbackslash : c ≠ ch '\\') (s : List Byte) :
    behindQuote false (c :: s) = behindQuote false s := by
  rw [behindQuote, if_neg Bool.false_ne_true, if_neg hquote, decide_eq_false hbackslash]

theorem behindQuote_escaped_char (c : Byte) (s : List Byte) :
    behindQuote false (ch '\\' :: c :: s) = behindQuote false s := by
  rw [behindQuote, if_neg Bool.false_ne_true, if_neg (by decide), behindQuote]
  rfl

theorem behindQuote_escape (b : Byte) (s : List Byte) : behindQuote false (escape b ++ s) = behindQuote false s := by
  rcases escape_cases b with ⟨-, heq⟩ | ⟨hp, heq⟩ | ⟨-, heq⟩
  · rw [heq, List.cons_append, List.singleton_append, behindQuote_escaped_char]
  · rw [heq, List.singleton_append, behindQuote_skip hp.1 hp.2.1]
  · obtain ⟨hhigh, hlow, -⟩ := nibbles b
    obtain ⟨-, hhq, hhb, -⟩ := hexDigit_spec _ hhigh
    obtain ⟨-, hlq, hlb, -⟩ := hexDigit_spec _ hlow
    rw [heq, escape_u00, behindQuote_escaped_char, behindQuote_skip (by decide) (by decide),
      behindQuote_skip (by decide) (by decide), behindQuote_skip hhq hhb, behindQuote_skip hlq hlb]

/-! ## All the bytes -/

theorem unescape_escape (bytes : List Byte) : unescape (bytes.flatMap escape) = some bytes := by
  induction bytes with
  | nil => rfl
  | cons b bytes ih => rw [List.flatMap_cons, unescape_escape_cons, ih, Option.map_some]

theorem behindQuote_escaped (bytes rest : List Byte) :
    behindQuote false (bytes.flatMap escape ++ ch '"' :: rest) = some rest := by
  induction bytes with
  | nil => rw [List.flatMap_nil, List.nil_append, behindQuote, if_neg Bool.false_ne_true, if_pos rfl]
  | cons b bytes ih => rw [List.flatMap_cons, List.append_assoc, behindQuote_escape, ih]

theorem bytesLiteral_printable (bytes : List Byte) : ∀ c ∈ bytesLiteral bytes, 0x20 ≤ c.toNat ∧ c.toNat ≤ 0x7e := by
  intro c hc
  have hquote : 0x20 ≤ (ch '"').toNat ∧ (ch '"').toNat ≤ 0x7e := by decide
  simp only [bytesLiteral, List.cons_append, List.mem_cons, List.mem_append, List.not_mem_nil, or_false] at hc
  rcases hc with rfl | hc | rfl
  · exact hquote
  · obtain ⟨b, -, hb⟩ := List.mem_flatMap.mp hc
    have := escape_printable b c hb
    omega
  · exact hquote

theorem bytesLiteral_injective {bytes bytes' : List Byte} (h : bytesLiteral bytes = bytesLiteral bytes') :
    bytes = bytes' := by
  have hinner : bytes.flatMap escape = bytes'.flatMap escape := List.append_cancel_right (List.cons.inj h).2
  have hread := unescape_escape bytes
  rw [hinner, unescape_escape] at hread
  exact (Option.some.inj hread).symm

/-! ## The calls -/

section
variable {σ : Type} {w : Byte → σ → Option σ} {m : Nat} {below deeper : List jems_level_t} {level : jems_level_t}

theorem emit_quoted_bytes_loop_emits (todo done junk : List Byte) (hlen : done.length + todo.length < 2 ^ 31) :
    Emits w (emit_quoted_bytes_loop (done ++ todo ++ junk) todo.length done.length) (state w m below level deeper)
      (todo.flatMap escape) (state w m below level deeper) := by
  -- `done` is what the loop has written when `todo` is left
  induction todo generalizing done with
  | nil => exact fun arg => rfl
  | cons b todo ih =>
    have hread : rd (done ++ b :: todo ++ junk) (i32 done.length) = some b := by
      rw [i32_of_lt (by simp only [List.length_cons] at hlen; omega), rd_natCast, List.append_assoc,
        List.getElem?_append_right (Nat.le_refl _), Nat.sub_self]
      rfl
    have hrest := ih (done ++ [b])
      (by simp only [List.length_append, List.length_cons, List.length_nil] at hlen ⊢; omega)
    rw [List.length_append, List.length_singleton, List.append_assoc done [b] todo, List.singleton_append] at hrest
    have h := (emit_quoted_byte_emits b).bind hrest
    intro arg
    rw [List.length_cons, emit_quoted_bytes_loop, hread, Option.bind_some, List.flatMap_cons]
    exact h arg

theorem jems_bytes_emits (bytes junk : List Byte) (hlen : bytes.length < 2 ^ 31) :
    Emits w (fun jems => jems_bytes jems (bytes ++ junk) bytes.length) (state w m below level deeper)
      (separator level ++ bytesLiteral bytes) (state w m below (counted level) deeper) := by
  have hloop : Emits w (fun jems => emit_quoted_bytes jems (bytes ++ junk) bytes.length)
      (state w m below (counted level) deeper) (bytes.flatMap escape) (state w m below (counted level) deeper) :=
    emit_quoted_bytes_loop_emits bytes [] junk (by rwa [List.length_nil, Nat.zero_add])
  exact commify_emits.bind ((emit_char_emits (ch '"')).bind (hloop.bind (emit_char_emits (ch '"'))))

end

/-- Whatever the bytes are, and from every state, one literal is written. It is printable, its first quote that is not
escaped is its last character, and it stands for these bytes and for no others. -/
theorem jems_bytes_literal (bytes junk : List Byte) (hlen : bytes.length < 2 ^ 31) :
    (∀ {σ : Type} (w : Byte → σ → Option σ) (m : Nat) (below : List jems_level_t) (level : jems_level_t)
      (deeper : List jems_level_t), Emits w (fun jems => jems_bytes jems (bytes ++ junk) bytes.length)
        (state w m below level deeper) (separator level ++ bytesLiteral bytes)
        (state w m below (counted level) deeper)) ∧
      (∀ c ∈ bytesLiteral bytes, 0x20 ≤ c.toNat ∧ c.toNat ≤ 0x7e) ∧
      behindQuote false (bytesLiteral bytes).tail = some [] ∧
      unescape (bytesLiteral bytes).tail.dropLast = some bytes ∧
      ∀ bytes', bytesLiteral bytes' = bytesLiteral bytes → bytes' = bytes := by
  refine ⟨fun w m below level deeper => jems_bytes_emits bytes junk hlen, bytesLiteral_printable bytes,
    behindQuote_escaped bytes [], ?_, fun bytes' => bytesLiteral_injective⟩
  rw [bytesLiteral, List.cons_append, List.tail_cons, List.dropLast_concat]
  exact unescape_escape bytes

theorem jems_bytes_literal_edges :
    behindQuote false (bytesLiteral [0, 0x1f, 0x20, ch '"', ch '\\', 0x7e, 0x7f, 0xff]).tail = some [] ∧
      unescape (bytesLiteral [0, 0x1f, 0x20, ch '"', ch '\\', 0x7e, 0x7f, 0xff]).tail.dropLast =
        some [0, 0x1f, 0x20, ch '"', ch '\\', 0x7e, 0x7f, 0xff] := by
  obtain ⟨-, -, hquote, hread, -⟩ :=
    jems_bytes_literal [0, 0x1f, 0x20, ch '"', ch '\\', 0x7e, 0x7f, 0xff] [] (by decide)
  exact ⟨hquote, hread⟩

/-! ## What a string denotes -/

theorem ofUInt8_ne {c : Char} (hc : c = '"' ∨ c = '\\') {b : Byte} (h : b ≠ ch c) : Char.ofUInt8 b ≠ c := by
  have hall : ∀ b : Byte, (Char.ofUInt8 b = '"' → b = ch '"') ∧ (Char.ofUInt8 b = '\\' → b = ch '\\') := by
    decide +kernel
  rcases hc with rfl | rfl
  · exact fun heq => h ((hall b).1 heq)
  · exact fun heq => h ((hall b).2 heq)

theorem ofUInt8_toNat (b : Byte) : (Char.ofUInt8 b).toNat = b.toNat := rfl

theorem ofNat_toNat (b : Byte) : Char.ofNat b.toNat = Char.ofUInt8 b := by
  rw [← ofUInt8_toNat, Char.ofNat_toNat]

theorem hex4_u00 (b : Byte) :
    hex4 '0' '0' (Char.ofUInt8 (hexDigit (b.toNat / 16))) (Char.ofUInt8 (hexDigit (b.toNat % 16))) = some b.toNat := by
  obtain ⟨hhigh, hlow, hsum⟩ := nibbles b
  have hzero : hexVal '0' = some 0 := by decide
  rw [hex4, hzero, (hexDigit_spec _ hhigh).1, (hexDigit_spec _ hlow).1]
  simp only [Option.bind_some, Option.map_some, Option.some.injEq]
  omega

theorem denotes_escape (b : Byte) (text s : List Char) :
    Denotes ((escape b).map Char.ofUInt8 ++ text) s ↔ ∃ t, s = Char.ofUInt8 b :: t ∧ Denotes text t := by
  rcases escape_cases b with ⟨hq, heq⟩ | ⟨⟨hquote, hbackslash, hprint, -⟩, heq⟩ | ⟨-, heq⟩
  · rw [heq]
    apply denotes_simple
    rcases hq with rfl | rfl <;> decide
  · rw [heq]
    exact denotes_plain (ofUInt8_ne (.inl rfl) hquote) (ofUInt8_ne (.inr rfl) hbackslash) hprint
  · have hlt := b.toNat_lt
    have hhigh : ¬ IsHigh b.toNat := fun h => by
      have := h.1
      omega
    have hlow : ¬ IsLow b.toNat := fun h => by
      have := h.1
      omega
    have hu := escape_u00 b []
    rw [List.append_nil] at hu
    rw [heq, hu, ← ofNat_toNat]
    exact denotes_unicode (hex4_u00 b) hhigh hlow

theorem denotes_escaped (bytes : List Byte) (s : List Char) :
    Denotes ((bytes.flatMap escape).map Char.ofUInt8) s ↔ s = bytes.map Char.ofUInt8 := by
  induction bytes generalizing s with
  | nil => exact denotes_nil
  | cons b bytes ih =>
    rw [List.flatMap_cons, List.map_append, denotes_escape, List.map_cons]
    simp only [ih, exists_eq_right]

theorem literal_quoted (string : CString) (s : List Char) :
    Literal ((quoted string).map Char.ofUInt8) s ↔ s = string.bytes.map Char.ofUInt8 := by
  have hquoted : (quoted string).map Char.ofUInt8 =
      '"' :: (string.bytes.flatMap escape).map Char.ofUInt8 ++ ['"'] := by
    rw [quoted, List.cons_append, List.map_cons, List.map_append]
    rfl
  rw [hquoted, literal_iff, denotes_escaped]

/-! ## The meaning of a string -/

/-- From every state, `jems_string` writes one literal, and it denotes `s`. -/
def KeepsMeaning (string : CString) (s : List Char) : Prop :=
  ∀ {σ : Type} (w : Byte → σ → Option σ) (m : Nat) (below : List jems_level_t) (level : jems_level_t)
    (deeper : List jems_level_t), ∃ literal, Emits w (fun jems => jems_string jems string.memory)
      (state w m below level deeper) (separator level ++ literal) (state w m below (counted level) deeper) ∧
      Literal (literal.map Char.ofUInt8) s

theorem Emits.text_unique {f : jems_t (List Byte) → Option (jems_t (List Byte))} {m : Nat}
    {below deeper : List jems_level_t} {level level' : jems_level_t} {s t : List Byte}
    (hs : Emits record f (state record m below level deeper) s (state record m below level' deeper))
    (ht : Emits record f (state record m below level deeper) t (state record m below level' deeper)) : s = t := by
  have h := (hs []).symm.trans (ht [])
  rw [writeAll_record, writeAll_record, Option.map_some, Option.map_some, Option.some_inj] at h
  exact congrArg jems_t.arg h

/-- The bytes of a character are quoted one by one, and each of them denotes a character. -/
theorem jems_string_meaning_iff (string : CString) (s : String)
    (hutf8 : string.bytes = s.toList.flatMap String.utf8EncodeChar) :
    KeepsMeaning string s.toList ↔ ∀ c ∈ s.toList, c.toNat < 128 := by
  have hquoted := literal_quoted string s.toList
  rw [hutf8, utf8_bytes_iff] at hquoted
  rw [← hquoted]
  constructor
  · intro hmeaning
    obtain ⟨literal, hemits, hliteral⟩ := hmeaning record 1 [] ⟨0, false⟩ []
    have hsame := Emits.text_unique hemits (jems_string_emits string)
    rwa [List.append_cancel_left hsame] at hliteral
  · intro hliteral σ w m below level deeper
    exact ⟨quoted string, jems_string_emits string, hliteral⟩

theorem jems_string_meaning_ascii : KeepsMeaning ⟨ascii "a\"b\n", by decide +kernel⟩ "a\"b\n".toList :=
  (jems_string_meaning_iff ⟨ascii "a\"b\n", by decide +kernel⟩ "a\"b\n" (by decide +kernel)).mpr (by simp)

/-- `é` is two bytes, which are quoted as two characters. -/
theorem jems_string_e_acute :
    quoted ⟨[0xc3, 0xa9], by decide⟩ = ascii "\"\\u00c3\\u00a9\"" ∧
      ¬ ∀ (string : CString) (s : String), string.bytes = s.toList.flatMap String.utf8EncodeChar →
        KeepsMeaning string s.toList := by
  refine ⟨by decide +kernel, fun hclaim => ?_⟩
  obtain ⟨literal, hemits, hliteral⟩ :=
    hclaim ⟨[0xc3, 0xa9], by decide⟩ "é" (by decide +kernel) record 1 [] ⟨0, false⟩ []
  rw [List.append_cancel_left (Emits.text_unique hemits (jems_string_emits _)), literal_quoted] at hliteral
  exact absurd hliteral (by decide +kernel)

end ToyTstat.Jems
