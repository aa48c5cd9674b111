import Ferry.Json.Lexer
import Ferry.Json.Printer

/-!
# What is printed is split into the words it was printed from

The lexer runs on fuel, one unit a word, and the length of the text pays for
it. Nothing below counts that fuel: `Lexes cs ts rest` says that under any fuel
that covers `cs` the lexer takes the words `ts` off its front and goes on with
`rest` under a fuel that still covers it. Such statements compose, so a value
is lexed part by part, and the walk over a value is the walk of its printer.

Only strings carry an argument. A character is written as one piece of a
string, and the piece stands for that character again; the characters below 20h
that have no short escape come back as units far below the surrogates, which is
why no two of them are ever read as a pair.

Numbers are left out: the values stored and sent by this library hold texts,
flags and nothing else.
-/

namespace Ferry.Json

mutual

/-- No number occurs in the value. -/
def textual : Json → Bool
  | .nat _ => false
  | .arr items => textualItems items
  | .obj fields => textualFields fields
  | .null | .bool _ | .str _ => true

def textualItems : List Json → Bool
  | [] => true
  | j :: rest => j.textual && textualItems rest

def textualFields : List (String × Json) → Bool
  | [] => true
  | (_, j) :: rest => j.textual && textualFields rest

end

mutual

/-- The words a value is printed as. -/
def words : Json → List Token
  | .null => [.null]
  | .bool b => [.bool b]
  | .nat _ => []
  | .str s => [.str s]
  | .arr [] => [.openArr, .closeArr]
  | .arr (j :: rest) => .openArr :: j.words ++ itemsWords rest
  | .obj [] => [.openObj, .closeObj]
  | .obj ((k, j) :: rest) => .openObj :: .str k :: .colon :: j.words ++ fieldsWords rest

/-- The words after the first item, with the closing bracket. -/
def itemsWords : List Json → List Token
  | [] => [.closeArr]
  | j :: rest => .comma :: j.words ++ itemsWords rest

/-- The words after the first field, with the closing brace. -/
def fieldsWords : List (String × Json) → List Token
  | [] => [.closeObj]
  | (k, j) :: rest => .comma :: .str k :: .colon :: j.words ++ fieldsWords rest

end

/-! ## Strings -/

/-- The piece that a character of a string is written as. -/
def pieceOf (c : Char) : Piece :=
  if c.toNat < 0x20 ∧ c ≠ '\x08' ∧ c ≠ '\x0c' ∧ c ≠ '\n' ∧ c ≠ '\r' ∧ c ≠ '\t' then
    .unit c.toNat
  else .char c

theorem hexValue?_lowHexDigit : ∀ n < 16, hexValue? (lowHexDigit n) = some n := by
  decide

theorem hex4?_of_lt {n : Nat} (h : n < 0x20) :
    hex4? '0' '0' (lowHexDigit (n / 16)) (lowHexDigit (n % 16)) = some n := by
  have hzero : hexValue? '0' = some 0 := by decide
  rw [hex4?, hzero, hexValue?_lowHexDigit _ (by omega), hexValue?_lowHexDigit _ (by omega)]
  simp only [Option.bind_eq_bind, Option.bind_some, Option.some.injEq]
  omega

theorem stringPieces?_simple {c d : Char} {cs : List Char} (hu : c ≠ 'u')
    (hd : simpleEscape? c = some d) :
    stringPieces? ('\\' :: c :: cs) =
      (stringPieces? cs).map fun p => (.char d :: p.1, p.2) := by
  rw [stringPieces?.eq_def]
  cases h : stringPieces? cs <;> simp_all

theorem stringPieces?_escapeChar (c : Char) (cs : List Char) :
    stringPieces? (escapeChar c ++ cs) =
      (stringPieces? cs).map fun p => (pieceOf c :: p.1, p.2) := by
  unfold escapeChar
  split
  case h_8 c hq hb h1 h2 h3 h4 h5 =>
    split
    · next hlow =>
      simp only [List.cons_append, List.nil_append]
      rw [stringPieces?, hex4?_of_lt hlow, pieceOf, if_pos ⟨hlow, h1, h2, h3, h4, h5⟩]
      cases stringPieces? cs <;> rfl
    · next hlow =>
      rw [pieceOf, if_neg (fun h => hlow h.1), List.singleton_append, stringPieces?.eq_def]
      cases h : stringPieces? cs <;> simp_all
  all_goals exact stringPieces?_simple (by decide) rfl

theorem stringPieces?_flatMap (cs rest : List Char) :
    stringPieces? (cs.flatMap escapeChar ++ '"' :: rest) = some (cs.map pieceOf, rest) := by
  induction cs with
  | nil => rw [List.flatMap_nil, List.nil_append, stringPieces?]; rfl
  | cons c cs ih =>
      rw [List.flatMap_cons, List.append_assoc, stringPieces?_escapeChar, ih]
      rfl

theorem pieceChars?_unit {n : Nat} (h : n < 0xd800) (ps : List Piece) :
    pieceChars? (.unit n :: ps) = (pieceChars? ps).map (Char.ofNat n :: ·) := by
  have hpair : ¬ (0xd800 ≤ n ∧ n < 0xdc00) := by omega
  have hlow : ¬ (0xdc00 ≤ n ∧ n < 0xe000) := by omega
  have hhalf : ¬ (0xd800 ≤ n ∧ n < 0xe000) := by omega
  match ps with
  | [] => simp [pieceChars?, hhalf]
  | .char c :: rest => simp [pieceChars?, hhalf]
  | .unit m :: rest => rw [pieceChars?]; simp [hpair, hlow]

theorem pieceChars?_map (cs : List Char) : pieceChars? (cs.map pieceOf) = some cs := by
  induction cs with
  | nil => rw [List.map_nil, pieceChars?]
  | cons c cs ih =>
      rw [List.map_cons, pieceOf]
      split
      · next h => rw [pieceChars?_unit (by omega), ih, Char.ofNat_toNat, Option.map_some]
      · rw [pieceChars?, ih, Option.map_some]

theorem lexString_text (s : String) (rest : List Char) :
    lexString (s.toList.flatMap escapeChar ++ '"' :: rest) = some (.str s, rest) := by
  rw [lexString, stringPieces?_flatMap, Option.map_some]
  simp only [pieceChars?_map, String.ofList_toList]

/-! ## Words -/

/-- Under every fuel that covers the text, its first words are `ts`, and the
fuel that is left covers the rest. -/
def Lexes (cs : List Char) (ts : List Token) (rest : List Char) : Prop :=
  ∀ n, cs.length ≤ n → ∃ m, rest.length ≤ m ∧ tokensWithin n cs = ts ++ tokensWithin m rest

theorem Lexes.tokens_eq {cs : List Char} {ts : List Token} (h : Lexes cs ts []) :
    tokens cs = ts := by
  obtain ⟨m, _, hm⟩ := h cs.length (Nat.le_refl _)
  rw [tokens, hm, tokensWithin, List.append_nil]

theorem Lexes.trans {cs mid rest : List Char} {ts us : List Token}
    (h : Lexes cs ts mid) (h' : Lexes mid us rest) : Lexes cs (ts ++ us) rest := by
  intro n hn
  obtain ⟨k, hk, hts⟩ := h n hn
  obtain ⟨m, hm, hus⟩ := h' k hk
  exact ⟨m, hm, by rw [hts, hus, List.append_assoc]⟩

theorem Lexes.word {c : Char} {t : Token} {tail rest : List Char}
    (hword : lexWord c tail = some (t, rest)) (hspace : isJsonSpace c = false)
    (hlen : rest.length ≤ tail.length) : Lexes (c :: tail) [t] rest := by
  intro n hn
  obtain ⟨k, rfl⟩ : ∃ k, n = k + 1 := ⟨n - 1, by simp only [List.length_cons] at hn; omega⟩
  refine ⟨k, by simp only [List.length_cons] at hn; omega, ?_⟩
  rw [tokensWithin, if_neg (by simp [hspace]), hword]
  rfl

theorem Lexes.cons {c : Char} {t : Token} {tail rest : List Char} {ts : List Token}
    (hword : lexWord c tail = some (t, tail)) (hspace : isJsonSpace c = false)
    (h : Lexes tail ts rest) : Lexes (c :: tail) (t :: ts) rest :=
  (Lexes.word hword hspace (Nat.le_refl _)).trans h

theorem lexes_stringText (s : String) (rest : List Char) :
    Lexes (stringText s ++ rest) [.str s] rest := by
  have happ : stringText s ++ rest =
      '"' :: (s.toList.flatMap escapeChar ++ '"' :: rest) := by
    simp [stringText]
  rw [happ]
  refine Lexes.word (by rw [lexWord, lexString_text]) (by decide) ?_
  simp only [List.length_append, List.length_cons]
  omega

mutual

theorem lexes_text (j : Json) (rest : List Char) (h : j.textual = true) :
    Lexes (j.text ++ rest) j.words rest := by
  match j with
  | .null => rw [text, words]; exact Lexes.word rfl (by decide) (by simp; omega)
  | .bool true => rw [text, words]; exact Lexes.word rfl (by decide) (by simp; omega)
  | .bool false => rw [text, words]; exact Lexes.word rfl (by decide) (by simp; omega)
  | .str s => rw [text, words]; exact lexes_stringText s rest
  | .arr [] =>
      rw [text, words]
      exact Lexes.cons rfl (by decide) (Lexes.word rfl (by decide) (Nat.le_refl _))
  | .obj [] =>
      rw [text, words]
      exact Lexes.cons rfl (by decide) (Lexes.word rfl (by decide) (Nat.le_refl _))
  | .arr (j :: items) =>
      rw [textual, textualItems, Bool.and_eq_true] at h
      rw [text, words]
      simp only [List.cons_append, List.append_assoc]
      exact Lexes.cons rfl (by decide)
        ((lexes_text j _ h.1).trans (lexes_itemsText items rest h.2))
  | .obj ((k, j) :: fields) =>
      rw [textual, textualFields, Bool.and_eq_true] at h
      rw [text, words]
      simp only [List.cons_append, List.append_assoc]
      exact Lexes.cons rfl (by decide)
        ((lexes_stringText k _).trans (Lexes.cons rfl (by decide)
          ((lexes_text j _ h.1).trans (lexes_fieldsText fields rest h.2))))

theorem lexes_itemsText (items : List Json) (rest : List Char)
    (h : textualItems items = true) :
    Lexes (itemsText items ++ rest) (itemsWords items) rest := by
  match items with
  | [] => rw [itemsText, itemsWords]; exact Lexes.word rfl (by decide) (Nat.le_refl _)
  | j :: items =>
      rw [textualItems, Bool.and_eq_true] at h
      rw [itemsText, itemsWords]
      simp only [List.cons_append, List.append_assoc]
      exact Lexes.cons rfl (by decide)
        ((lexes_text j _ h.1).trans (lexes_itemsText items rest h.2))

theorem lexes_fieldsText (fields : List (String × Json)) (rest : List Char)
    (h : textualFields fields = true) :
    Lexes (fieldsText fields ++ rest) (fieldsWords fields) rest := by
  match fields with
  | [] => rw [fieldsText, fieldsWords]; exact Lexes.word rfl (by decide) (Nat.le_refl _)
  | (k, j) :: fields =>
      rw [textualFields, Bool.and_eq_true] at h
      rw [fieldsText, fieldsWords]
      simp only [List.cons_append, List.append_assoc]
      exact Lexes.cons rfl (by decide)
        ((lexes_stringText k _).trans (Lexes.cons rfl (by decide)
          ((lexes_text j _ h.1).trans (lexes_fieldsText fields rest h.2))))

end

/-- The words of a printed value are the words it was printed as. -/
theorem tokens_text {j : Json} (h : j.textual = true) : tokens j.text = j.words := by
  refine Lexes.tokens_eq ?_
  have hlex := lexes_text j [] h
  rwa [List.append_nil] at hlex

end Ferry.Json
