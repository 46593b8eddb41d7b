import ScriptEngine.Json.Number
import ScriptEngine.Json.Reader

/-! # Reading what was written

The text of a JSON value, followed by anything that can follow a value, is read as that value, and
the reader stops exactly where the value ends.  Strings read back for any text, since what is escaped
is read as what it stands for.  Numerals read back if they are written as numerals are: digits on both
sides of the point and no leading zeros.

Main statement: `Json.parse?_text`, for values all of whose strings have a text and all of whose
numerals are **legible** (`Json.Legible`).
-/
namespace ScriptEngine

open Decimal (Numeral isDigits)
open Text (Symbols)

namespace Json

theorem skipBlanks_cons {c : Char} (h : isBlank c = false) (cs : Symbols) :
    skipBlanks (some c :: cs) = some c :: cs := by
  simp [skipBlanks, h]

/-! ## Strings -/

/-- What a character of a text is read as: itself, or its number if that is how it is escaped. -/
def pieceOf (c : Char) : Piece :=
  if c.toNat < 32 ∧ c.toNat ∉ [8, 9, 10, 12, 13] then .unit c.toNat else .char c

theorem hexValue?_hexDigit : ∀ n < 16, hexValue? (hexDigit n) = some n := by decide

/-- The four digits of an escaped control character. -/
theorem unit?_escaped {n : Nat} (h : n < 32) :
    unit? (some '0') (some '0') (some (hexDigit (n / 16))) (some (hexDigit (n % 16))) = some n := by
  have hzero : hexValue? '0' = some 0 := by decide
  have hhigh := hexValue?_hexDigit (n / 16) (by omega)
  have hlow := hexValue?_hexDigit (n % 16) (by omega)
  simp only [unit?, Option.bind_some, hzero, hhigh, hlow]
  congr 1
  omega

theorem scanPieces_short {c d : Char} (hc : c ≠ 'u') (hd : escape? c = some d) (cs : Symbols) :
    scanPieces (some '\\' :: some c :: cs) =
      (scanPieces cs).map fun (ps, rest) => (.char d :: ps, rest) := by
  rw [scanPieces]
  · rw [hd]
  · exact fun _ _ _ _ _ _ hu => hc hu

/-- A character that stands for itself. -/
theorem scanPieces_plain {c : Char} (hquote : c ≠ '"') (hslash : c ≠ '\\') (hc : 32 ≤ c.toNat)
    (cs : Symbols) :
    scanPieces (some c :: cs) = (scanPieces cs).map fun (ps, rest) => (.char c :: ps, rest) := by
  have hplain : ¬(c.toNat < 32 ∨ c = '\\') := by
    rintro (hlow | rfl)
    · omega
    · exact hslash rfl
  rw [scanPieces]
  · rw [if_neg hplain]
  · exact hquote
  · exact fun _ _ _ _ _ _ h => hslash h
  · exact fun _ _ _ h => hslash h

/-- A character of a literal is read as its piece, whether it is escaped or not. -/
theorem scanPieces_escapeChar (c : Char) (cs : Symbols) :
    scanPieces ((escapeChar c).map some ++ cs) =
      (scanPieces cs).map fun (ps, rest) => (pieceOf c :: ps, rest) := by
  -- One case for each way in which a character is written.
  have hshort {d : Char} (e : Char) (hn : c.toNat = d.toNat) (he : e ≠ 'u')
      (hd : escape? e = some d) (hpiece : pieceOf d = .char d) :
      scanPieces (['\\', e].map some ++ cs) =
        (scanPieces cs).map fun (ps, rest) => (pieceOf c :: ps, rest) := by
    obtain rfl : c = d := Char.toNat_inj.mp hn
    rw [hpiece]
    exact scanPieces_short he hd cs
  unfold escapeChar
  split
  · rename_i h
    exact hshort (d := '"') '"' (h ▸ rfl) (by decide) (by decide) (by decide)
  split
  · rename_i h
    exact hshort (d := '\\') '\\' (h ▸ rfl) (by decide) (by decide) (by decide)
  split
  · rename_i h
    exact hshort (d := Char.ofNat 8) 'b' h (by decide) (by decide) (by decide)
  split
  · rename_i h
    exact hshort (d := '\t') 't' h (by decide) (by decide) (by decide)
  split
  · rename_i h
    exact hshort (d := '\n') 'n' h (by decide) (by decide) (by decide)
  split
  · rename_i h
    exact hshort (d := Char.ofNat 12) 'f' h (by decide) (by decide) (by decide)
  split
  · rename_i h
    exact hshort (d := '\r') 'r' h (by decide) (by decide) (by decide)
  split
  · rename_i h8 h9 h10 h12 h13 h
    have hpiece : pieceOf c = .unit c.toNat := by simp [pieceOf, *]
    rw [hpiece]
    simp only [List.map_cons, List.map_nil, List.cons_append, List.nil_append]
    rw [scanPieces, unit?_escaped h]
  · rename_i hquote hslash _ _ _ _ _ h
    have hpiece : pieceOf c = .char c := by simp [pieceOf, h]
    rw [hpiece]
    exact scanPieces_plain hquote hslash (by omega) cs

/-- The number of a control character is half of no pair. -/
theorem assemble_unit {n : Nat} (h : n < 32) (ps : List Piece) :
    assemble (.unit n :: ps) = (assemble ps).map (Char.ofNat n :: ·) := by
  have hhigh : isHigh n = false := by simp [isHigh]; omega
  have hlow : isLow n = false := by simp [isLow]; omega
  rcases ps with _ | ⟨_ | _ | _, ps⟩
  · simp [assemble, hhigh, hlow]
  · simp [assemble, hhigh, hlow]
  · simp [assemble, hhigh, hlow]
  · simp [assemble, hhigh, hlow]

theorem assemble_pieceOf (c : Char) (ps : List Piece) :
    assemble (pieceOf c :: ps) = (assemble ps).map (c :: ·) := by
  unfold pieceOf
  split
  · rename_i hc
    rw [assemble_unit hc.1, Char.ofNat_toNat]
  · rw [assemble]

theorem scanPieces_escaped (cs : List Char) (rest : Symbols) :
    scanPieces ((cs.flatMap escapeChar).map some ++ some '"' :: rest) =
      some (cs.map pieceOf, rest) := by
  induction cs with
  | nil => simp [scanPieces]
  | cons c cs ih =>
    rw [List.flatMap_cons, List.map_append, List.append_assoc, scanPieces_escapeChar, ih]
    rfl

theorem assemble_pieces (cs : List Char) : assemble (cs.map pieceOf) = some cs := by
  induction cs with
  | nil => rfl
  | cons c cs ih =>
    rw [List.map_cons, assemble_pieceOf, ih]
    rfl

/-- A literal behind its opening quote is read as the text that it quotes. -/
theorem scanString_escaped (s : String) (rest : Symbols) :
    scanString ((s.toList.flatMap escapeChar).map some ++ some '"' :: rest) =
      some (some s, rest) := by
  rw [scanString, scanPieces_escaped, Option.map_some]
  simp only [assemble_pieces, Option.map_some, String.ofList_toList]

/-! ## Numerals -/

/-- Nothing follows that could belong to a numeral: the text ends, or an item or a container does. -/
def Delimited (rest : List Char) : Prop :=
  ∀ c, rest.head? = some c → c = ',' ∨ c = ']' ∨ c = '\x7d'

theorem delimited_nil : Delimited [] := by
  intro c hc
  cases hc

theorem spanDigits_append {ds : List Char} (hds : ds.all Char.isDigit = true) {cs : Symbols}
    (hcs : ∀ c, cs.head? = some (some c) → c.isDigit = false) :
    spanDigits (ds.map some ++ cs) = (ds, cs) := by
  induction ds with
  | nil =>
    rcases cs with _ | ⟨_ | c, cs⟩
    · rfl
    · rfl
    · have hc : c.isDigit = false := hcs c rfl
      simp [spanDigits, hc]
  | cons d ds ih =>
    simp only [List.all_cons, Bool.and_eq_true] at hds
    simp [spanDigits, hds.1, ih hds.2]

/-- What follows a numeral is no digit, no point and no exponent. -/
theorem Delimited.not_numeral {rest : List Char} (h : Delimited rest) {c : Char}
    (hc : (rest.map some).head? = some (some c)) :
    c.isDigit = false ∧ c ≠ '.' ∧ c ≠ 'e' ∧ c ≠ 'E' := by
  have hhead : rest.head? = some c := by simpa using hc
  rcases h c hhead with rfl | rfl | rfl
  · decide
  · decide
  · decide

end Json

namespace Decimal.Numeral

/-- The parts of a numeral are digits, and there are some in each part that is there. -/
structure Shaped (n : Numeral) : Prop where
  whole : isDigits n.whole = true
  fraction : ∀ ds, n.fraction = some ds → isDigits ds = true
  exponent : ∀ cs, n.exponent = some cs →
    ∃ sign ds, cs = sign ++ ds ∧ (sign = [] ∨ sign = ['+'] ∨ sign = ['-']) ∧ isDigits ds = true

/-- The digits before the point start with a zero that is not all there is. -/
def hasLeadingZero (n : Numeral) : Bool :=
  n.whole.head? == some '0' && n.whole.length != 1

/-- The exponent of a numeral as it is written, if it has one. -/
def exponentChars (n : Numeral) : List Char :=
  match n.exponent with
  | none => []
  | some ds => 'e' :: ds

/-- The fraction of a numeral as it is written, if it has one. -/
def fractionChars (n : Numeral) : List Char :=
  match n.fraction with
  | none => []
  | some ds => '.' :: ds

open Json

variable {n : Numeral} {rest : List Char}

theorem digits_of_isDigits {ds : List Char} (h : isDigits ds = true) :
    ds.isEmpty = false ∧ ds.all Char.isDigit = true := by
  simpa [isDigits] using h

/-- A digit is none of the characters that have a meaning of their own in a numeral. -/
theorem digit_ne {c : Char} (h : c.isDigit = true) : c ≠ '-' ∧ c ≠ '+' := by
  constructor
  · rintro rfl
    exact absurd h (by decide)
  · rintro rfl
    exact absurd h (by decide)

/-- What follows the fraction is neither a digit nor a point. -/
theorem next_exponentChars (hrest : Delimited rest) {c : Char}
    (hc : ((n.exponentChars ++ rest).map some).head? = some (some c)) :
    c.isDigit = false ∧ c ≠ '.' := by
  unfold exponentChars at hc
  cases hexp : n.exponent with
  | none =>
    rw [hexp] at hc
    exact ⟨(hrest.not_numeral hc).1, (hrest.not_numeral hc).2.1⟩
  | some cs =>
    simp only [hexp, List.cons_append, List.map_cons, List.head?_cons, Option.some.injEq] at hc
    subst hc
    decide

/-- What follows the digits before the point is no digit. -/
theorem next_fractionChars (hrest : Delimited rest) {c : Char}
    (hc : ((n.fractionChars ++ (n.exponentChars ++ rest)).map some).head? = some (some c)) :
    c.isDigit = false := by
  unfold fractionChars at hc
  cases hfrac : n.fraction with
  | none =>
    rw [hfrac] at hc
    exact (next_exponentChars hrest hc).1
  | some ds =>
    simp only [hfrac, List.cons_append, List.map_cons, List.head?_cons, Option.some.injEq] at hc
    subst hc
    decide

theorem scanExponent_chars (h : n.Shaped) (hrest : Delimited rest) :
    scanExponent ((n.exponentChars ++ rest).map some) = some (n.exponent, rest.map some) := by
  unfold exponentChars
  cases hexp : n.exponent with
  | none =>
    rcases rest with _ | ⟨c, rest⟩
    · rfl
    · obtain ⟨-, -, he, hE⟩ := hrest.not_numeral (c := c) rfl
      simp [scanExponent, he, hE]
  | some cs =>
    obtain ⟨sign, ds, rfl, hsign, hds⟩ := h.exponent cs hexp
    obtain ⟨hne, hall⟩ := digits_of_isDigits hds
    have hspan : spanDigits (ds.map some ++ rest.map some) = (ds, rest.map some) :=
      spanDigits_append hall fun c hc => (hrest.not_numeral hc).1
    rcases hsign with rfl | rfl | rfl
    · -- Without a sign, the first digit must not be taken for one.
      rcases ds with _ | ⟨d, ds⟩
      · cases hne
      · obtain ⟨hminus, hplus⟩ := digit_ne (List.all_eq_true.mp hall d List.mem_cons_self)
        rw [List.map_cons, List.cons_append] at hspan
        simp [scanExponent, hminus, hplus, hspan]
    · simp_all [scanExponent]
    · simp_all [scanExponent]

theorem scanFraction_chars (h : n.Shaped) (hrest : Delimited rest) :
    scanFraction ((n.fractionChars ++ (n.exponentChars ++ rest)).map some) =
      some (n.fraction, (n.exponentChars ++ rest).map some) := by
  have hnext {c : Char} := next_exponentChars (n := n) hrest (c := c)
  unfold fractionChars
  generalize n.exponentChars ++ rest = after at hnext
  cases hfrac : n.fraction with
  | none =>
    rcases after with _ | ⟨c, after⟩
    · rfl
    · have hpoint := (hnext (c := c) rfl).2
      simp [scanFraction, hpoint]
  | some ds =>
    obtain ⟨hne, hall⟩ := digits_of_isDigits (h.fraction ds hfrac)
    have hspan : spanDigits (ds.map some ++ after.map some) = (ds, after.map some) :=
      spanDigits_append hall fun c hc => (hnext hc).1
    simp_all [scanFraction]

/-- The text of a numeral is read as that numeral, unless it has leading zeros. -/
theorem scanNumeral_chars (h : n.Shaped) (hrest : Delimited rest) :
    scanNumeral ((n.chars ++ rest).map some) =
      if n.hasLeadingZero then none else some (n, rest.map some) := by
  have hfraction := scanFraction_chars h hrest
  have hexponent := scanExponent_chars h hrest
  have hchars : n.chars ++ rest = (if n.negative then ['-'] else []) ++
      (n.whole ++ (n.fractionChars ++ (n.exponentChars ++ rest))) := by
    simp only [chars, List.append_assoc]
    rfl
  obtain ⟨hne, hall⟩ := digits_of_isDigits h.whole
  have hspan := spanDigits_append hall (fun c hc => next_fractionChars (n := n) hrest hc)
  rw [hchars]
  generalize hafter : n.fractionChars ++ (n.exponentChars ++ rest) = after at hfraction hspan
  obtain ⟨negative, whole, fraction, exponent⟩ := n
  rcases whole with _ | ⟨d, ds⟩
  · cases hne
  · have hminus := (digit_ne (List.all_eq_true.mp hall d List.mem_cons_self)).1
    rw [List.map_cons, List.cons_append] at hspan
    cases negative with
    | true => simp_all [scanNumeral, hasLeadingZero]
    | false => simp_all [scanNumeral, hasLeadingZero]

/-- The numeral is one that is read: its parts are digits and there are no leading zeros. -/
structure Legible (n : Numeral) : Prop extends Shaped n where
  noLeadingZero : n.hasLeadingZero = false

theorem Legible.scan (h : n.Legible) (hrest : Delimited rest) :
    scanNumeral ((n.chars ++ rest).map some) = some (n, rest.map some) := by
  rw [scanNumeral_chars h.toShaped hrest, h.noLeadingZero]
  rfl

/-- A numeral starts with its sign or with a digit. -/
theorem Shaped.starts (h : n.Shaped) :
    ∃ c cs, n.chars = c :: cs ∧ (c = '-' ∨ c.isDigit = true) := by
  obtain ⟨hne, hall⟩ := digits_of_isDigits h.whole
  obtain ⟨negative, whole, fraction, exponent⟩ := n
  cases negative with
  | true => exact ⟨'-', _, rfl, .inl rfl⟩
  | false =>
    rcases whole with _ | ⟨d, ds⟩
    · cases hne
    · exact ⟨d, _, rfl, .inr (List.all_eq_true.mp hall d List.mem_cons_self)⟩

end Decimal.Numeral

/-! ## Values -/

namespace Json

mutual

/-- **The value is legible**: its strings have a text, and its numerals are read as they are. -/
def Legible : Json → Prop
  | .null | .bool _ => True
  | .num n => n.Legible
  | .str text => text.isSome = true
  | .arr items => LegibleItems items
  | .obj fields => LegibleFields fields

def LegibleItems : List Json → Prop
  | [] => True
  | v :: rest => v.Legible ∧ LegibleItems rest

def LegibleFields : List (Option String × Json) → Prop
  | [] => True
  | (name, v) :: rest => name.isSome = true ∧ v.Legible ∧ LegibleFields rest

end

theorem writeItems_cons (v w : Json) (more : List Json) (rest : List Char) :
    writeItems (v :: w :: more) rest = v.write (',' :: writeItems (w :: more) rest) := by
  conv => lhs; unfold writeItems

theorem writeFields_cons (name : Option String) (v : Json) (w : Option String × Json)
    (more : List (Option String × Json)) (rest : List Char) :
    writeFields ((name, v) :: w :: more) rest =
      quoteText name ++ ':' :: v.write (',' :: writeFields (w :: more) rest) := by
  conv => lhs; unfold writeFields

mutual

/-- What follows a value does not change how it is written. -/
theorem write_eq (rest : List Char) : ∀ v : Json, v.write rest = v.write [] ++ rest
  | .null | .bool true | .bool false => rfl
  | .num _ | .str _ => by
    rw [write, write, List.append_nil]
  | .arr items => by
    rw [write, write, writeItems_eq (']' :: rest), writeItems_eq [']']]
    simp
  | .obj fields => by
    rw [write, write, writeFields_eq ('\x7d' :: rest), writeFields_eq ['\x7d']]
    simp

theorem writeItems_eq (rest : List Char) :
    ∀ items : List Json, writeItems items rest = writeItems items [] ++ rest
  | [] => rfl
  | [v] => by rw [writeItems, writeItems, write_eq rest v]
  | v :: w :: more => by
    rw [writeItems_cons, writeItems_cons, write_eq _ v,
      write_eq (',' :: writeItems (w :: more) []) v, writeItems_eq rest (w :: more)]
    simp

theorem writeFields_eq (rest : List Char) : ∀ fields : List (Option String × Json),
    writeFields fields rest = writeFields fields [] ++ rest
  | [] => rfl
  | [(name, v)] => by
    rw [writeFields, writeFields, write_eq rest v]
    simp
  | (name, v) :: w :: more => by
    rw [writeFields_cons, writeFields_cons, write_eq _ v,
      write_eq (',' :: writeFields (w :: more) []) v, writeFields_eq rest (w :: more)]
    simp

end

/-- A digit is no blank, and none of the characters that other values start with. -/
theorem digit_plain {c : Char} (h : c.isDigit = true) : isBlank c = false ∧ c ≠ ']' ∧
    c ≠ '"' ∧ c ≠ '[' ∧ c ≠ '\x7b' ∧ c ≠ 'n' ∧ c ≠ 't' ∧ c ≠ 'f' := by
  refine ⟨?_, ?_, ?_, ?_, ?_, ?_, ?_, ?_⟩
  · rw [← Bool.not_eq_true]
    intro hblank
    simp only [isBlank, Bool.or_eq_true, decide_eq_true_eq] at hblank
    rcases hblank with ((rfl | rfl) | rfl) | rfl
    all_goals exact absurd h (by decide)
  all_goals
    rintro rfl
    exact absurd h (by decide)

/-- A value starts with no blank and no closing bracket. -/
theorem Legible.starts {v : Json} (h : v.Legible) (rest : List Char) :
    ∃ c cs, v.write rest = c :: cs ∧ isBlank c = false ∧ c ≠ ']' := by
  cases v with
  | null => exact ⟨'n', _, rfl, by decide, by decide⟩
  | bool b =>
    cases b with
    | true => exact ⟨'t', _, rfl, by decide, by decide⟩
    | false => exact ⟨'f', _, rfl, by decide, by decide⟩
  | num n =>
    obtain ⟨c, cs, hc, hstart⟩ := Decimal.Numeral.Shaped.starts h.toShaped
    refine ⟨c, cs ++ rest, by rw [write, hc]; rfl, ?_⟩
    rcases hstart with rfl | hdigit
    · decide
    · exact ⟨(digit_plain hdigit).1, (digit_plain hdigit).2.1⟩
  | str text =>
    cases text with
    | none => cases h
    | some s => exact ⟨'"', _, rfl, by decide, by decide⟩
  | arr items => exact ⟨'[', _, rfl, by decide, by decide⟩
  | obj fields => exact ⟨'\x7b', _, rfl, by decide, by decide⟩

theorem expect_symbols {word : String} (rest : Symbols) :
    expect word (Text.symbols word ++ rest) = some rest := by
  simp [expect]

/-- What starts like a numeral is read as one. -/
theorem scanValue_shaped {n : Numeral} (h : n.Shaped) (rest : List Char) (fuel : Nat) :
    scanValue (fuel + 1) ((n.chars ++ rest).map some) =
      (scanNumeral ((n.chars ++ rest).map some)).map fun (n, rest) => (.num n, rest) := by
  obtain ⟨c, cs, hc, hstart⟩ := h.starts
  have hplain : isBlank c = false ∧ c ≠ '"' ∧ c ≠ '[' ∧ c ≠ '\x7b' ∧ c ≠ 'n' ∧ c ≠ 't' ∧
      c ≠ 'f' := by
    rcases hstart with rfl | hdigit
    · decide
    · exact ⟨(digit_plain hdigit).1, (digit_plain hdigit).2.2⟩
  obtain ⟨hblank, hquote, hopen, hbrace, hn, ht, hf⟩ := hplain
  rw [hc, List.cons_append, List.map_cons, scanValue, skipBlanks_cons hblank]
  simp [hquote, hopen, hbrace, hn, ht, hf]

theorem delimited_comma (cs : List Char) : Delimited (',' :: cs) := by
  rintro c hc
  cases hc
  exact .inl rfl

theorem delimited_bracket (cs : List Char) : Delimited (']' :: cs) := by
  rintro c hc
  cases hc
  exact .inr (.inl rfl)

theorem delimited_brace (cs : List Char) : Delimited ('\x7d' :: cs) := by
  rintro c hc
  cases hc
  exact .inr (.inr rfl)

theorem length_write_pos {v : Json} (h : v.Legible) : 0 < (v.write []).length := by
  obtain ⟨c, cs, hc, -⟩ := h.starts []
  rw [hc]
  exact Nat.succ_pos _

theorem map_quote (s : String) (rest : List Char) : (quote s ++ rest).map some =
    some '"' :: ((s.toList.flatMap escapeChar).map some ++ some '"' :: rest.map some) := by
  simp [quote]

theorem scanString_quoteText {name : Option String} (h : name.isSome = true) (rest : List Char) :
    ∃ cs, (quoteText name ++ rest).map some = some '"' :: cs ∧
      scanString cs = some (name, rest.map some) := by
  obtain ⟨s, rfl⟩ := Option.isSome_iff_exists.mp h
  exact ⟨_, map_quote s rest, scanString_escaped s (rest.map some)⟩

theorem writeItems_starts {v : Json} (hv : v.Legible) (more : List Json) (rest : List Char) :
    ∃ c cs, writeItems (v :: more) rest = c :: cs ∧ isBlank c = false ∧ c ≠ ']' := by
  cases more with
  | nil => exact hv.starts rest
  | cons w more =>
    rw [writeItems_cons]
    exact hv.starts _

theorem writeFields_starts {name : Option String} (hname : name.isSome = true) (v : Json)
    (more : List (Option String × Json)) (rest : List Char) :
    ∃ cs, writeFields ((name, v) :: more) rest = '"' :: cs := by
  obtain ⟨s, rfl⟩ := Option.isSome_iff_exists.mp hname
  cases more with
  | nil => exact ⟨_, rfl⟩
  | cons w more =>
    rw [writeFields_cons]
    exact ⟨_, rfl⟩

-- The reader spends one unit of fuel on a value and one on each item, and the text of either has at
-- least one character, so twice the length of the text is enough.
mutual

/-- A value in front of what can follow one is read, and nothing more. -/
theorem scanValue_write : ∀ {v : Json}, v.Legible → ∀ (fuel : Nat) (rest : List Char),
    2 * (v.write []).length ≤ fuel + 1 → Delimited rest →
    scanValue fuel ((v.write rest).map some) = some (v, rest.map some)
  | v, hv, 0, rest, hfuel, hrest => by
    have := length_write_pos hv
    omega
  | .null, _, fuel + 1, rest, _, _ => by
    have hword : (Json.null.write rest).map some =
        some 'n' :: (Text.symbols "ull" ++ rest.map some) := by
      simp [write, Text.symbols]
    rw [hword, scanValue, skipBlanks_cons (by decide)]
    simp [expect_symbols]
  | .bool true, _, fuel + 1, rest, _, _ => by
    have hword : ((Json.bool true).write rest).map some =
        some 't' :: (Text.symbols "rue" ++ rest.map some) := by
      simp [write, Text.symbols]
    rw [hword, scanValue, skipBlanks_cons (by decide)]
    simp [expect_symbols]
  | .bool false, _, fuel + 1, rest, _, _ => by
    have hword : ((Json.bool false).write rest).map some =
        some 'f' :: (Text.symbols "alse" ++ rest.map some) := by
      simp [write, Text.symbols]
    rw [hword, scanValue, skipBlanks_cons (by decide)]
    simp [expect_symbols]
  | .num n, hv, fuel + 1, rest, _, hrest => by
    rw [write, scanValue_shaped hv.toShaped, hv.scan hrest]
    rfl
  | .str text, hv, fuel + 1, rest, _, _ => by
    obtain ⟨cs, hcs, hscan⟩ := scanString_quoteText hv rest
    rw [write, hcs, scanValue, skipBlanks_cons (by decide)]
    simp [hscan]
  | .arr [], _, fuel + 1, rest, _, _ => by
    rw [write, writeItems, List.map_cons, List.map_cons, scanValue, skipBlanks_cons (by decide)]
    simp [skipBlanks_cons (c := ']') (by decide)]
  | .arr (v :: more), hv, fuel + 1, rest, hfuel, _ => by
    obtain ⟨c, cs, hc, hblank, hbracket⟩ := writeItems_starts hv.1 more (']' :: rest)
    have hitems : 2 * (writeItems (v :: more) []).length ≤ fuel := by
      rw [write, writeItems_eq, List.length_cons, List.length_append] at hfuel
      simp only [List.length_singleton] at hfuel
      omega
    have hscan := scanItems_write hv fuel rest hitems
    rw [write, List.map_cons, scanValue, skipBlanks_cons (by decide)]
    rw [hc, List.map_cons] at hscan ⊢
    simp [skipBlanks_cons hblank, hbracket, hscan]
  | .obj [], _, fuel + 1, rest, _, _ => by
    rw [write, writeFields, List.map_cons, List.map_cons, scanValue, skipBlanks_cons (by decide)]
    simp [skipBlanks_cons (c := '\x7d') (by decide)]
  | .obj ((name, v) :: more), hv, fuel + 1, rest, hfuel, _ => by
    obtain ⟨cs, hc⟩ := writeFields_starts hv.1 v more ('\x7d' :: rest)
    have hfields : 2 * (writeFields ((name, v) :: more) []).length ≤ fuel := by
      rw [write, writeFields_eq, List.length_cons, List.length_append] at hfuel
      simp only [List.length_singleton] at hfuel
      omega
    have hscan := scanFields_write hv fuel rest hfields
    rw [write, List.map_cons, scanValue, skipBlanks_cons (by decide)]
    rw [hc, List.map_cons] at hscan ⊢
    simp [skipBlanks_cons (c := '"') (by decide), hscan]

theorem scanItems_write : ∀ {v : Json} {more : List Json}, LegibleItems (v :: more) →
    ∀ (fuel : Nat) (rest : List Char), 2 * (writeItems (v :: more) []).length ≤ fuel →
    scanItems fuel ((writeItems (v :: more) (']' :: rest)).map some) =
      some (v :: more, rest.map some)
  | v, more, hv, 0, rest, hfuel => by
    obtain ⟨c, cs, hc, -⟩ := writeItems_starts hv.1 more []
    rw [hc, List.length_cons] at hfuel
    omega
  | v, [], hv, fuel + 1, rest, hfuel => by
    rw [writeItems] at hfuel
    have hscan := scanValue_write hv.1 fuel _ (by omega) (delimited_bracket rest)
    rw [writeItems, scanItems, hscan]
    simp [skipBlanks_cons (c := ']') (by decide)]
  | v, w :: more, hv, fuel + 1, rest, hfuel => by
    rw [writeItems_cons, write_eq, List.length_append, List.length_cons] at hfuel
    have hscan := scanValue_write hv.1 fuel _ (by omega)
      (delimited_comma (writeItems (w :: more) (']' :: rest)))
    have hmore := scanItems_write hv.2 fuel rest (by omega)
    rw [writeItems_cons, scanItems, hscan, List.map_cons]
    simp [skipBlanks_cons (c := ',') (by decide), hmore]

theorem scanFields_write : ∀ {name : Option String} {v : Json}
    {more : List (Option String × Json)}, LegibleFields ((name, v) :: more) →
    ∀ (fuel : Nat) (rest : List Char),
    2 * (writeFields ((name, v) :: more) []).length ≤ fuel →
    scanFields fuel ((writeFields ((name, v) :: more) ('\x7d' :: rest)).map some) =
      some ((name, v) :: more, rest.map some)
  | name, v, more, hv, 0, rest, hfuel => by
    obtain ⟨cs, hc⟩ := writeFields_starts hv.1 v more []
    rw [hc, List.length_cons] at hfuel
    omega
  | name, v, [], hv, fuel + 1, rest, hfuel => by
    rw [writeFields, List.length_append, List.length_cons] at hfuel
    have hscan := scanValue_write hv.2.1 fuel _ (by omega) (delimited_brace rest)
    obtain ⟨cs, hcs, hname⟩ := scanString_quoteText hv.1 (':' :: v.write ('\x7d' :: rest))
    rw [writeFields, hcs, scanFields, skipBlanks_cons (by decide)]
    simp [hname, skipBlanks_cons (c := ':') (by decide), hscan,
      skipBlanks_cons (c := '\x7d') (by decide)]
  | name, v, (name', w) :: more, hv, fuel + 1, rest, hfuel => by
    rw [writeFields_cons, List.length_append, List.length_cons, write_eq, List.length_append,
      List.length_cons] at hfuel
    have hscan := scanValue_write hv.2.1 fuel _ (by omega)
      (delimited_comma (writeFields ((name', w) :: more) ('\x7d' :: rest)))
    have hmore := scanFields_write hv.2.2 fuel rest (by omega)
    obtain ⟨cs, hcs, hname⟩ := scanString_quoteText hv.1
      (':' :: v.write (',' :: writeFields ((name', w) :: more) ('\x7d' :: rest)))
    rw [writeFields_cons, hcs, scanFields, skipBlanks_cons (by decide)]
    simp [hname, skipBlanks_cons (c := ':') (by decide), hscan,
      skipBlanks_cons (c := ',') (by decide), hmore]

end

theorem symbols_text (v : Json) : Text.symbols v.text = (v.write []).map some := by
  rw [text, Text.symbols, String.toList_ofList]

/-- **The text of a legible value is read as that value.** -/
theorem parse?_text {v : Json} (h : v.Legible) : parse? v.text = some v := by
  have hscan := scanValue_write h (2 * ((v.write []).map some).length + 1) [] (by simp; omega)
    delimited_nil
  rw [parse?, ofSymbols?, symbols_text, hscan]
  rfl

/-- Leading zeros are all that keeps a numeral from being read. -/
theorem parse?_num {n : Numeral} (h : n.Shaped) :
    parse? (Json.num n).text = if n.hasLeadingZero then none else some (.num n) := by
  have hscan := Numeral.scanNumeral_chars h delimited_nil
  rw [parse?, ofSymbols?, symbols_text, write, scanValue_shaped h, hscan]
  cases n.hasLeadingZero with
  | true => rfl
  | false => rfl

end Json

end ScriptEngine
