import DeltaView.Json.Reader
import DeltaView.Json.Writer
import DeltaView.Proofs.Json.Basic
import DeltaView.Proofs.Number.Numeral

/-!
# Tokens of written trees

The indented text of a tree is cut into the tokens of that tree.

* `Json.tokens`: the tokens of a tree, whatever blanks stand between them.
* `lex?_word`: a word is one token if what follows it does not go on with it (`EndsWord`).
* `lex?_quoteChars`: a text in quotes is one token, escapes undone.
* **`lex?_prettyChars`**: an indented tree gives its tokens, and leaves what follows it.
-/

namespace DeltaView

namespace Json

/-! ## Tokens -/

mutual

/-- The tokens of a tree. -/
def tokens : Json → List Token
  | .array items => .openArray :: itemTokens true items
  | .object members => .openObject :: memberTokens true members
  | .string s => [.text (some s)]
  | j => [.scalar (some j)]

/-- Items up to the closing bracket; a comma precedes all but the first. -/
def itemTokens : Bool → List Json → List Token
  | _, [] => [.closeArray]
  | isFirst, j :: js => (if isFirst then [] else [.comma]) ++ tokens j ++ itemTokens false js

def memberTokens : Bool → List (String × Json) → List Token
  | _, [] => [.closeObject]
  | isFirst, (name, j) :: rest =>
    (if isFirst then [] else [.comma]) ++ .text (some name) :: .colon :: tokens j ++
      memberTokens false rest

end

/-! ## Characters between tokens -/

theorem lex?_cons (mode : LexMode) (c : Char) (cs : List Char) :
    lex? mode (c :: cs) =
      (lexChar? mode c).bind fun p => (lex? p.1 cs).map (p.2 ++ ·) := by
  have hcons : lex? mode (c :: cs) =
      (lexChar? mode c).bind fun p => (lex? p.1 cs).bind fun rest => some (p.2 ++ rest) := by
    cases mode <;> rfl
  rw [hcons]
  exact congrArg _ (funext fun p => Option.map_eq_bind.symm)

/-- A character that completes no token. -/
theorem lex?_step {mode mode' : LexMode} {c : Char} (h : lexChar? mode c = some (mode', []))
    (cs : List Char) : lex? mode (c :: cs) = lex? mode' cs := by
  rw [lex?_cons, h]
  exact Option.map_id'

/-- A character that stays between the tokens. -/
theorem lex?_between {c : Char} {ts : List Token} (h : lexBetween? c = some (.between, ts))
    (cs : List Char) : lex? .between (c :: cs) = (lex? .between cs).map (ts ++ ·) := by
  rw [lex?_cons]
  show (lexBetween? c).bind _ = _
  rw [h]
  rfl

theorem lex?_blanks {blanks : List Char} (h : ∀ c ∈ blanks, isBlank c) (rest : List Char) :
    lex? .between (blanks ++ rest) = lex? .between rest := by
  induction blanks with
  | nil => rfl
  | cons c blanks ih =>
    rw [List.forall_mem_cons] at h
    have hc : lexChar? .between c = some (.between, []) := if_pos h.1
    rw [List.cons_append, lex?_step hc, ih h.2]

theorem isBlank_of_mem_newLine {level : Nat} {c : Char} (h : c ∈ newLine level) : isBlank c := by
  rcases List.mem_cons.mp h with rfl | h
  · rfl
  · rw [List.eq_of_mem_replicate h]
    rfl

/-! ## Words -/

/-- Does a text not go on with a word that ends before it? -/
def EndsWord (rest : List Char) : Prop := ∀ c ∈ rest.head?, isWordChar c = false

theorem endsWord_cons {c : Char} (h : isWordChar c = false) (cs : List Char) :
    EndsWord (c :: cs) := by
  rintro c' hc'
  rw [← Option.some.inj hc']
  exact h

theorem not_isBlank_of_isWordChar {c : Char} (h : isWordChar c) : isBlank c = false := by
  rw [Bool.eq_false_iff]
  intro hb
  simp only [isBlank, Bool.or_eq_true, beq_iff_eq] at hb
  rcases hb with ((rfl | rfl) | rfl) | rfl <;> exact absurd h (by decide)

/-- The first character of a word. -/
theorem lexBetween?_wordChar {c : Char} (h : isWordChar c) :
    lexBetween? c = some (.word [c], []) := by
  unfold lexBetween?
  rw [not_isBlank_of_isWordChar h, h]
  rfl

/-- The further characters of a word. -/
theorem lex?_wordChars {cs : List Char} (h : ∀ c ∈ cs, isWordChar c) (rev rest : List Char) :
    lex? (.word rev) (cs ++ rest) = lex? (.word (cs.reverse ++ rev)) rest := by
  induction cs generalizing rev with
  | nil => rfl
  | cons c cs ih =>
    rw [List.forall_mem_cons] at h
    have hc : lexChar? (.word rev) c = some (.word (c :: rev), []) := if_pos h.1
    rw [List.cons_append, lex?_step hc, ih h.2, List.reverse_cons, List.append_assoc]
    rfl

theorem lex?_wordEnd {rev rest : List Char} {t : Token} (hword : word? rev.reverse = some t)
    (hends : EndsWord rest) : lex? (.word rev) rest = (lex? .between rest).map (t :: ·) := by
  cases rest with
  | nil =>
    show (word? rev.reverse).bind _ = _
    rw [hword]
    rfl
  | cons c cs =>
    have hc : lexChar? (.word rev) c = (lexBetween? c).map fun p => (p.1, t :: p.2) := by
      show (if isWordChar c = true then _ else (word? rev.reverse).bind _) = _
      rw [if_neg (Bool.eq_false_iff.mp (hends c rfl)), hword]
      cases lexBetween? c <;> rfl
    rw [lex?_cons, lex?_cons, hc]
    show _ = ((lexBetween? c).bind _).map _
    cases lexBetween? c with
    | none => rfl
    | some p =>
      show (lex? p.1 cs).map _ = ((lex? p.1 cs).map _).map _
      rw [Option.map_map]
      rfl

/-- **A word is one token**, if what follows does not go on with it. -/
theorem lex?_word {cs rest : List Char} {t : Token} (hchars : ∀ c ∈ cs, isWordChar c)
    (hword : word? cs = some t) (hends : EndsWord rest) :
    lex? .between (cs ++ rest) = (lex? .between rest).map (t :: ·) := by
  cases cs with
  | nil => cases hword
  | cons c cs =>
    rw [List.forall_mem_cons] at hchars
    have hrev : word? (cs.reverse ++ [c]).reverse = some t := by
      rw [List.reverse_append, List.reverse_reverse]
      exact hword
    have hc : lexChar? .between c = some (.word [c], []) := lexBetween?_wordChar hchars.1
    rw [List.cons_append, lex?_step hc, lex?_wordChars hchars.2, lex?_wordEnd hrev hends]

theorem lex?_constant {cs rest : List Char} {j : Json} (hchars : cs.all isWordChar)
    (hword : word? cs = some (.scalar (some j))) (hends : EndsWord rest) :
    lex? .between (cs ++ rest) = (lex? .between rest).map (.scalar (some j) :: ·) :=
  lex?_word (List.all_eq_true.mp hchars) hword hends

/-! ### Numerals -/

theorem isWordChar_of_isPart {c : Char} (h : Numeral.IsPart c) : isWordChar c := by
  rcases h with h | h
  · unfold isWordChar Char.isAlphanum
    rw [h, Bool.or_true]
    rfl
  · have hmarks : ['.', 'e', 'E', '+', '-'].all isWordChar := rfl
    exact List.all_eq_true.mp hmarks c h

/-- The word of a numeral. -/
theorem word?_of_read? {cs : List Char} {n : Numeral} (h : Numeral.read? cs = some n) :
    word? cs = some (.scalar (ofNumeral? n)) := by
  have hconstant : ∀ constant ∈ [['n', 'u', 'l', 'l'], ['t', 'r', 'u', 'e'],
      ['f', 'a', 'l', 's', 'e']], cs ≠ constant := by
    rintro constant hmem rfl
    have hnone : ∀ constant ∈ [['n', 'u', 'l', 'l'], ['t', 'r', 'u', 'e'],
        ['f', 'a', 'l', 's', 'e']], Numeral.read? constant = none := by decide
    rw [hnone cs hmem] at h
    cases h
  unfold word?
  rw [if_neg (hconstant _ (by decide)), if_neg (hconstant _ (by decide)),
    if_neg (hconstant _ (by decide)), h]
  rfl

theorem lex?_numeral {cs rest : List Char} {n : Numeral} {j : Json}
    (h : Numeral.read? cs = some n) (hj : ofNumeral? n = some j) (hends : EndsWord rest) :
    lex? .between (cs ++ rest) = (lex? .between rest).map (.scalar (some j) :: ·) := by
  have hword : word? cs = some (.scalar (some j)) := by rw [word?_of_read? h, hj]
  exact lex?_word (fun c hc => isWordChar_of_isPart ((Numeral.read?_eq_some h).1 c hc)) hword hends

theorem ofNumeral?_digitsOfInt {n : Int} (h : Readable (.int n)) :
    ofNumeral? ⟨n < 0, digitsOfNat n.natAbs, [], none⟩ = some (.int n) := by
  unfold ofNumeral?
  rw [Numeral.toInt?_digitsOfInt h.1 h.2]

/-- A float that reads back, as a numeral. -/
theorem exists_numeral_of_readsBack {x : Double} (h : x.ReadsBack) :
    ∃ cs n, x.text? = some cs ∧ Numeral.read? cs = some n ∧ ofNumeral? n = some (.float x) := by
  obtain ⟨n, hn, hx⟩ := Option.bind_eq_some_iff.mp h
  obtain ⟨cs, hcs, hn⟩ := Option.bind_eq_some_iff.mp hn
  refine ⟨cs, n, hcs, hn, ?_⟩
  obtain ⟨-, rfl⟩ := Option.ite_some_none_eq_some.mp hcs
  have hint : n.toInt? = none := by
    unfold Numeral.toInt?
    rw [Decimal.not_isWhole_of_text hn]
    rfl
  unfold ofNumeral?
  rw [hint, hx]
  rfl

/-! ## Texts in quotes -/

theorem hexDigit?_digitChar : ∀ d < 16, hexDigit? (Nat.digitChar d) = some d := by decide

/-- A character that is no last one of a `\u` escape. -/
theorem lexChar?_hex {left code d : Nat} {rev : List Nat} {c : Char} (h : hexDigit? c = some d) :
    lexChar? (.hex (left + 2) code rev) c = some (.hex (left + 1) (16 * code + d) rev, []) := by
  show (hexDigit? c).bind _ = _
  rw [h, Option.bind_some, if_neg (by omega)]
  rfl

theorem lexChar?_lastHex {code d : Nat} {rev : List Nat} {c : Char} (h : hexDigit? c = some d) :
    lexChar? (.hex 1 code rev) c = some (.text ((16 * code + d) :: rev), []) := by
  show (hexDigit? c).bind _ = _
  rw [h]
  rfl

/-- The characters with an escape of one letter. -/
theorem exists_escape : ∀ c ∈ ['"', '\\', '\x08', '\x0c', '\n', '\r', '\t'],
    ∃ e, escape? c = some ['\\', e] ∧ e ≠ 'u' ∧ unescape? e = some c := by
  simp only [List.forall_mem_cons, List.not_mem_nil, false_imp_iff, implies_true, and_true]
  exact ⟨⟨'"', rfl, by decide, rfl⟩, ⟨'\\', rfl, by decide, rfl⟩, ⟨'b', rfl, by decide, rfl⟩,
    ⟨'f', rfl, by decide, rfl⟩, ⟨'n', rfl, by decide, rfl⟩, ⟨'r', rfl, by decide, rfl⟩,
    ⟨'t', rfl, by decide, rfl⟩⟩

/-- A character in quotes, escaped or not. -/
theorem lex?_escape (c : Char) (rev : List Nat) (rest : List Char) :
    lex? (.text rev) ((escape? c).getD [c] ++ rest) = lex? (.text (c.toNat :: rev)) rest := by
  have hslash : lexChar? (.text rev) '\\' = some (.escape rev, []) := rfl
  by_cases hc : c ∈ ['"', '\\', '\x08', '\x0c', '\n', '\r', '\t']
  · obtain ⟨e, hescape, hu, hunescape⟩ := exists_escape c hc
    have he : lexChar? (.escape rev) e = some (.text (c.toNat :: rev), []) := by
      show (if (e == 'u') = true then _ else (unescape? e).map _) = _
      rw [if_neg (fun h => hu (beq_iff_eq.mp h)), hunescape]
      rfl
    rw [hescape]
    exact (lex?_step hslash _).trans (lex?_step he _)
  · simp only [List.mem_cons, List.not_mem_nil, or_false, not_or] at hc
    obtain ⟨hquote, hback, hb, hf, hn, hr, ht⟩ := hc
    unfold escape?
    simp only [beq_iff_eq, if_neg hquote, if_neg hback, if_neg hb, if_neg hf, if_neg hn, if_neg hr,
      if_neg ht]
    by_cases hcontrol : c.toNat < 0x20
    · rw [if_pos hcontrol]
      have hu : lexChar? (.escape rev) 'u' = some (.hex 4 0 rev, []) := rfl
      have hzero : hexDigit? '0' = some 0 := rfl
      have hhigh := hexDigit?_digitChar (c.toNat / 16) (by omega)
      have hlow := hexDigit?_digitChar (c.toNat % 16) (by omega)
      have hcode : 16 * (16 * (16 * (16 * 0 + 0) + 0) + c.toNat / 16) + c.toNat % 16 = c.toNat := by
        omega
      show lex? _ ('\\' :: 'u' :: '0' :: '0' :: Nat.digitChar (c.toNat / 16) ::
        Nat.digitChar (c.toNat % 16) :: rest) = _
      rw [lex?_step hslash, lex?_step hu, lex?_step (lexChar?_hex hzero),
        lex?_step (lexChar?_hex hzero), lex?_step (lexChar?_hex hhigh),
        lex?_step (lexChar?_lastHex hlow), hcode]
    · rw [if_neg hcontrol]
      refine lex?_step ?_ rest
      show (if (c == '"') = true then _ else if (c == '\\') = true then _ else
        if c.toNat < 0x20 then none else some (LexMode.text (c.toNat :: rev), [])) = _
      simp only [beq_iff_eq, if_neg hquote, if_neg hback, if_neg hcontrol]

/-- No character is half of one. -/
theorem charsOf?_toNat (cs : List Char) : charsOf? (cs.map Char.toNat) = some cs := by
  induction cs with
  | nil => rfl
  | cons c cs ih =>
    have hvalid : c.toNat < 0xD800 ∨ 0xDFFF < c.toNat ∧ c.toNat < 0x110000 := c.valid
    have hlow : isLowSurrogate c.toNat = false := by
      simp [isLowSurrogate]; omega
    have hhigh : isHighSurrogate c.toNat = false := by
      simp [isHighSurrogate]; omega
    rw [List.map_cons, charsOf?.eq_def]
    simp only [hlow, hhigh, ih, Char.ofNat_toNat]
    rfl

/-- The rest of a text in quotes. -/
theorem lex?_quoteChars (cs : List Char) (rev : List Nat) (rest : List Char) :
    lex? (.text rev) (quoteChars cs ++ rest) = (lex? .between rest).map
      (.text ((charsOf? (rev.reverse ++ cs.map Char.toNat)).map String.ofList) :: ·) := by
  induction cs generalizing rev with
  | nil =>
    rw [List.map_nil, List.append_nil]
    exact lex?_cons (.text rev) '"' rest
  | cons c cs ih =>
    rw [quoteChars, List.append_assoc, lex?_escape, ih, List.reverse_cons, List.append_assoc]
    rfl

/-- **A text in quotes is one token**, escapes undone. -/
theorem lex?_quote (s : String) (rest : List Char) :
    lex? .between (quote s ++ rest) = (lex? .between rest).map (.text (some s) :: ·) := by
  have hopen : lexChar? .between '"' = some (.text [], []) := rfl
  show lex? _ ('"' :: (quoteChars s.toList ++ rest)) = _
  rw [lex?_step hopen, lex?_quoteChars, List.reverse_nil, List.nil_append, charsOf?_toNat,
    Option.map_some, String.ofList_toList]

/-! ## Trees -/

/-- What follows an item or a member does not go on with a word. -/
theorem endsWord_prettyItems (level : Nat) (items : List Json) (rest : List Char) :
    EndsWord (prettyItems level false items ++ rest) := by
  cases items <;> exact endsWord_cons (by decide) _

theorem endsWord_prettyMembers (level : Nat) (members : List (String × Json)) (rest : List Char) :
    EndsWord (prettyMembers level false members ++ rest) := by
  cases members with
  | nil => exact endsWord_cons (by decide) _
  | cons m members => exact endsWord_cons (by decide) _

theorem lex?_newLine (level : Nat) (rest : List Char) :
    lex? .between (newLine level ++ rest) = lex? .between rest :=
  lex?_blanks (fun _ => isBlank_of_mem_newLine) rest

/-- The comma in front of all items but the first. -/
theorem lex?_comma (isFirst : Bool) (rest : List Char) :
    lex? .between ((if isFirst then [] else [',']) ++ rest) =
      (lex? .between rest).map ((if isFirst then [] else [.comma]) ++ ·) := by
  cases isFirst with
  | true => exact Option.map_id'.symm
  | false => exact lex?_between rfl rest

/-- The closing bracket, on a line of its own behind items. -/
theorem lex?_close {c : Char} {t : Token} (h : lexBetween? c = some (.between, [t]))
    (isFirst : Bool) (level : Nat) (rest : List Char) :
    lex? .between ((if isFirst then [c] else newLine level ++ [c]) ++ rest) =
      (lex? .between rest).map (t :: ·) := by
  cases isFirst with
  | true => exact lex?_between h rest
  | false =>
    show lex? _ (newLine level ++ [c] ++ rest) = _
    rw [List.append_assoc, lex?_newLine]
    exact lex?_between h rest

mutual

/-- **An indented tree gives its tokens**, and leaves what follows it. -/
theorem lex?_prettyChars : ∀ {j : Json}, j.Readable → ∀ (level : Nat) {rest : List Char},
    EndsWord rest →
      lex? .between (prettyChars level j ++ rest) = (lex? .between rest).map (tokens j ++ ·)
  | .null, _, _, _, hends => lex?_constant rfl rfl hends
  | .bool true, _, _, _, hends => lex?_constant rfl rfl hends
  | .bool false, _, _, _, hends => lex?_constant rfl rfl hends
  | .int n, h, _, _, hends =>
    lex?_numeral (Numeral.read?_digitsOfInt n) (ofNumeral?_digitsOfInt h) hends
  | .float x, h, _, rest, hends => by
    obtain ⟨cs, n, htext, hn, hx⟩ := exists_numeral_of_readsBack h
    show lex? _ (x.text?.getD ['n', 'u', 'l', 'l'] ++ rest) = _
    rw [htext]
    exact lex?_numeral hn hx hends
  | .string s, _, _, rest, _ => lex?_quote s rest
  | .array items, h, level, rest, _ => by
    have hopen : lexBetween? '[' = some (.between, [.openArray]) := rfl
    show lex? _ ('[' :: (prettyItems (level + 1) true items ++ rest)) = _
    rw [lex?_between hopen, lex?_prettyItems true h, Option.map_map]
    rfl
  | .object members, h, level, rest, _ => by
    have hopen : lexBetween? '{' = some (.between, [.openObject]) := rfl
    show lex? _ ('{' :: (prettyMembers (level + 1) true members ++ rest)) = _
    rw [lex?_between hopen, lex?_prettyMembers true h, Option.map_map]
    rfl

theorem lex?_prettyItems (isFirst : Bool) : ∀ {items : List Json}, ItemsReadable items →
    ∀ (level : Nat) {rest : List Char}, lex? .between (prettyItems level isFirst items ++ rest) =
      (lex? .between rest).map (itemTokens isFirst items ++ ·)
  | [], _, level, rest => by
    have hclose : lexBetween? ']' = some (.between, [.closeArray]) := rfl
    exact lex?_close hclose isFirst (level - 1) rest
  | j :: js, h, level, rest => by
    rw [prettyItems, itemTokens]
    simp only [List.append_assoc]
    rw [lex?_comma, lex?_newLine, lex?_prettyChars h.1 level (endsWord_prettyItems level js rest),
      lex?_prettyItems false h.2, Option.map_map, Option.map_map]
    rfl

theorem lex?_prettyMembers (isFirst : Bool) : ∀ {members : List (String × Json)},
    MembersReadable members → ∀ (level : Nat) {rest : List Char},
      lex? .between (prettyMembers level isFirst members ++ rest) =
        (lex? .between rest).map (memberTokens isFirst members ++ ·)
  | [], _, level, rest => by
    have hclose : lexBetween? '}' = some (.between, [.closeObject]) := rfl
    exact lex?_close hclose isFirst (level - 1) rest
  | (name, j) :: members, h, level, rest => by
    have hcolon : lexBetween? ':' = some (.between, [.colon]) := rfl
    have hblank : lexChar? .between ' ' = some (.between, []) := rfl
    rw [prettyMembers, memberTokens]
    simp only [List.append_assoc, List.cons_append]
    rw [lex?_comma, lex?_newLine, lex?_quote, lex?_between hcolon, lex?_step hblank,
      lex?_prettyChars h.1 level (endsWord_prettyMembers level members rest),
      lex?_prettyMembers false h.2]
    simp only [Option.map_map]
    rfl

end

end Json

end DeltaView
