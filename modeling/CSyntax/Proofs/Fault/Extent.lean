import CSyntax.Proofs.Lexical.Respelling
import CSyntax.Proofs.Lockstep.Locations

/-!
# Extent — how far a refusal reaches over its token

A refusal begins where its token does and is meant to span the whole of it.  How far it reaches is
counted from the text that messages show of the token, a column and a byte for each character.
Words and punctuators read as written, so refusals of them end where they do.  Numbers are shown in
decimal and without their suffixes, and quoted text may have characters of more than one byte: such
tokens may be longer than the refusal, or shorter.

* `Position.advanceBy_eq_shift_iff` — text within a line is as wide as it has characters just if all
  of them are bytes;
* `Lexeme.Spelled.visible` — what stands outside of quotes has visible characters alone, and no
  lexeme has a line feed (`Lexeme.Spelled.lineFeed_not_mem`);
* `TokenKind.Measured` — the texts of a token that are as long as is counted;
* `Parser.extent_of_parse` — the theorem.
-/

namespace CSyntax

/-! ## Text within a line -/

namespace Position

variable {cs : List Char}

theorem advanceBy_of_not_mem (h : '\n' ∉ cs) (p : Position) :
    p.advanceBy cs = { p with
      column := p.column + cs.length
      offset := p.offset + (String.ofList cs).utf8ByteSize } := by
  induction cs generalizing p with
  | nil => simp
  | cons c cs ih =>
      rw [List.mem_cons, not_or] at h
      rw [advanceBy_cons, ih h.2, advance, if_neg (Ne.symm h.1), utf8ByteSize_cons,
        List.length_cons]
      simp only [Nat.add_assoc, Nat.add_comm cs.length]

/-- Text has a byte for each character at least. -/
theorem length_le_utf8ByteSize (cs : List Char) :
    cs.length ≤ (String.ofList cs).utf8ByteSize := by
  induction cs with
  | nil => exact Nat.zero_le _
  | cons c cs ih =>
      have hpos := c.utf8Size_pos
      rw [List.length_cons, utf8ByteSize_cons]
      omega

theorem utf8ByteSize_eq_length_iff :
    (String.ofList cs).utf8ByteSize = cs.length ↔ ∀ c ∈ cs, c.utf8Size = 1 := by
  induction cs with
  | nil => simp
  | cons c cs ih =>
      have hpos := c.utf8Size_pos
      have hle := length_le_utf8ByteSize cs
      rw [List.forall_mem_cons, ← ih, List.length_cons, utf8ByteSize_cons]
      omega

/-- Text within a line is `n` columns and `n` bytes wide just if it has `n` characters of one byte
each. -/
theorem advanceBy_eq_shift_iff (h : '\n' ∉ cs) (p : Position) (n : Nat) :
    p.advanceBy cs = p.shift n ↔ cs.length = n ∧ ∀ c ∈ cs, c.utf8Size = 1 := by
  rw [advanceBy_of_not_mem h, shift, ← utf8ByteSize_eq_length_iff]
  simp only [Position.mk.injEq, Nat.add_left_cancel_iff, true_and, and_true]
  constructor
  · rintro ⟨rfl, hsize⟩
    exact ⟨rfl, hsize⟩
  · rintro ⟨rfl, hsize⟩
    exact ⟨rfl, hsize⟩

end Position

/-! ## Characters of lexemes -/

/-- A visible character of the basic Latin block is a byte, and ends no line. -/
theorem narrow_of_visible {c : Char} (h : 33 ≤ c.toNat ∧ c.toNat ≤ 126) :
    c.utf8Size = 1 ∧ c ≠ '\n' := by
  refine ⟨Char.utf8Size_eq_one_iff.2 (UInt32.le_iff_toNat_le.2 ?_), ?_⟩
  · exact Nat.le_trans h.2 (by decide)
  · rintro rfl
    exact absurd h.1 (by decide)

namespace Number

variable {c : Char}

theorem visible_of_isDigitOf (h : isDigitOf 16 c = true) : 33 ≤ c.toNat ∧ c.toNat ≤ 126 := by
  have hrange := toNat_of_isDigitOf h
  omega

theorem visible_of_isDigitOf_ten (h : isDigitOf 10 c = true) : 33 ≤ c.toNat ∧ c.toNat ≤ 126 :=
  visible_of_isDigitOf (isDigitOf_mono (by decide) h)

theorem Integral.visible {mark digits suffix : List Char} (h : Integral mark digits suffix) :
    ∀ c ∈ mark ++ digits ++ suffix, 33 ≤ c.toNat ∧ c.toNat ≤ 126 := by
  have hmarks : ∀ m ∈ marks, ∀ c ∈ m, 33 ≤ c.toNat ∧ c.toNat ≤ 126 := by
    simp [marks]
  have hbase : base mark digits ≤ 16 := by
    unfold base radix
    split_ifs <;> omega
  simp only [List.forall_mem_append]
  refine ⟨⟨hmarks mark h.marked, fun c hc => ?_⟩, fun c hc => ?_⟩
  · exact visible_of_isDigitOf (isDigitOf_mono hbase (h.within c hc))
  · have hletter := h.letters c hc
    simp only [isIntegerSuffix, Bool.or_eq_true, decide_eq_true_eq] at hletter
    rcases hletter with ((rfl | rfl) | rfl) | rfl <;> decide

end Number

theorem Decimal.Parts.visible {digits fraction introduction power : List Char}
    (h : Parts digits fraction introduction power) :
    ∀ c ∈ digits ++ fraction ++ introduction ++ power, 33 ≤ c.toNat ∧ c.toNat ≤ 126 := by
  have hfraction : ∀ c ∈ fraction, 33 ≤ c.toNat ∧ c.toNat ≤ 126 := by
    rcases h.point with rfl | ⟨ds, rfl, hds⟩
    · exact List.forall_mem_nil _
    · exact List.forall_mem_cons.2
        ⟨by decide, fun c hc => Number.visible_of_isDigitOf_ten (hds c hc)⟩
  have hexponent : ∀ c ∈ introduction ++ power, 33 ≤ c.toNat ∧ c.toNat ≤ 126 := by
    rcases h.exponent with ⟨rfl, rfl⟩ | ⟨c, sign, rfl, hc, hsign, -, hpower⟩
    · exact List.forall_mem_nil _
    · refine List.forall_mem_append.2
        ⟨List.forall_mem_cons.2 ⟨?_, ?_⟩, fun d hd => Number.visible_of_isDigitOf_ten (hpower d hd)⟩
      · rcases hc with rfl | rfl <;> decide
      · rcases hsign with rfl | rfl | rfl <;> simp
  rw [List.append_assoc, List.forall_mem_append, List.forall_mem_append]
  exact ⟨⟨fun c hc => Number.visible_of_isDigitOf_ten (h.whole c hc), hfraction⟩, hexponent⟩

theorem Number.Spelled.visible {w : Lexeme} {text : List Char} (h : Number.Spelled w text) :
    ∀ c ∈ text, 33 ≤ c.toNat ∧ c.toNat ≤ 126 := by
  cases h with
  | integer hintegral => exact hintegral.visible
  | floating hparts _ hsuffix =>
      refine List.forall_mem_append.2 ⟨hparts.visible, ?_⟩
      rcases hsuffix with rfl | ⟨c, rfl, hc⟩
      · exact List.forall_mem_nil _
      · rw [List.forall_mem_singleton]
        simp only [isFloatingSuffix, Bool.or_eq_true, decide_eq_true_eq] at hc
        rcases hc with ((rfl | rfl) | rfl) | rfl <;> decide

theorem Quoted.Body.lineFeed_not_mem {quote : Char} {body : List Char} (h : Body quote body) :
    '\n' ∉ body := by
  induction h with
  | nil => exact List.not_mem_nil
  | plain _ hline _ _ ih => exact List.not_mem_cons_of_ne_of_not_mem (Ne.symm hline) ih
  | escape hline _ ih =>
      exact List.not_mem_cons_of_ne_of_not_mem (by decide)
        (List.not_mem_cons_of_ne_of_not_mem (Ne.symm hline) ih)

namespace Lexeme

variable {w : Lexeme} {text : List Char}

/-- Whether a lexeme is enclosed in quotes. -/
def isQuoted : Lexeme → Bool
  | .string _ | .character _ => true
  | _ => false

/-- Outside of quotes there are visible characters alone. -/
theorem Spelled.visible (h : w.Spelled text) (hw : w.isQuoted = false) :
    ∀ c ∈ text, 33 ≤ c.toNat ∧ c.toNat ≤ 126 := by
  cases h with
  | word hc hcs =>
      refine List.forall_mem_cons.2 ⟨?_, fun d hd => visible_of_isWordPart (hcs d hd)⟩
      exact visible_of_isWordPart (by simp [isWordPart, hc])
  | number hnumber => exact hnumber.visible
  | string _ => cases hw
  | character _ _ => cases hw
  | punctuator mark => exact mark.visible
  | endOfFile => exact List.forall_mem_nil _

/-- Outside of quotes every character is one byte. -/
theorem Spelled.utf8Size_eq_one (h : w.Spelled text) (hw : w.isQuoted = false) :
    ∀ c ∈ text, c.utf8Size = 1 :=
  fun c hc => (narrow_of_visible (h.visible hw c hc)).1

/-- No lexeme goes over the end of a line. -/
theorem Spelled.lineFeed_not_mem (h : w.Spelled text) : '\n' ∉ text := by
  cases hw : w.isQuoted with
  | false => exact fun hmem => (narrow_of_visible (h.visible hw _ hmem)).2 rfl
  | true =>
      cases h with
      | string hbody => simp [hbody.lineFeed_not_mem]
      | character hbody _ => simp [hbody.lineFeed_not_mem]
      | number hnumber => cases hnumber <;> cases hw
      | _ => cases hw

end Lexeme

/-- A floating constant is kept as it is written in front of its suffix. -/
theorem Number.Spelled.constant_prefix {constant : String} {text : List Char}
    (h : Number.Spelled (.floating constant) text) : constant.toList <+: text := by
  cases h with
  | floating _ _ _ =>
      rw [String.toList_ofList]
      exact List.prefix_append _ _

/-! ## Texts that are as long as is counted -/

namespace TokenKind

/-- The texts of a token that have a column and a byte for each character of what messages show of
it: an integer as long as its value is in decimal, a floating constant without a suffix, and quoted
text in which all characters are bytes. -/
def Measured : TokenKind → List Char → Prop
  | .integer value, text => text.length = (toString value.toNat).length
  | .floating constant, text => text = constant.toList
  | .string body, _ | .character body, _ => ∀ c ∈ body.toList, c.utf8Size = 1
  | _, _ => True

variable {kind : TokenKind} {text : List Char}

theorem measured_iff (h : kind.lexeme.Spelled text) (hkind : kind ≠ .endOfFile) :
    kind.Measured text ↔ text.length = kind.spelling.length ∧ ∀ c ∈ text, c.utf8Size = 1 := by
  have hshows := shows_of_spelled h
  have hplain : ∀ spelling : String, text = spelling.toList → kind.lexeme.isQuoted = false →
      (True ↔ text.length = spelling.length ∧ ∀ c ∈ text, c.utf8Size = 1) := by
    rintro spelling rfl hplain
    exact iff_of_true trivial ⟨String.length_toList, h.utf8Size_eq_one hplain⟩
  have hquoted : ∀ quote body : String, text = (quote ++ body ++ quote).toList →
      (∀ c ∈ quote.toList, c.utf8Size = 1) → ((∀ c ∈ body.toList, c.utf8Size = 1) ↔
        text.length = (quote ++ body ++ quote).length ∧ ∀ c ∈ text, c.utf8Size = 1) := by
    rintro quote body rfl hquote
    rw [String.length_toList, and_iff_right rfl]
    simp only [String.toList_append, List.forall_mem_append]
    exact ⟨fun hbody => ⟨⟨hquote, hbody⟩, hquote⟩, fun hall => hall.1.2⟩
  cases kind with
  | identifier name => exact hplain name hshows rfl
  | typeName name => exact hplain name hshows rfl
  | punctuator mark => exact hplain mark.spelling hshows rfl
  | keyword word => exact hplain word.spelling hshows rfl
  | string body => exact hquoted "\"" body hshows (List.forall_mem_singleton.2 rfl)
  | character body => exact hquoted "'" body hshows (List.forall_mem_singleton.2 rfl)
  | integer value => exact (and_iff_left (h.utf8Size_eq_one rfl)).symm
  | floating constant =>
      have hnumber : Number.Spelled (.floating constant) text := hshows
      refine Iff.trans ⟨?_, ?_⟩ (and_iff_left (h.utf8Size_eq_one rfl)).symm
      · rintro rfl
        exact String.length_toList
      · exact fun hlength => (hnumber.constant_prefix.eq_of_length hlength.symm).symm
  | endOfFile => exact absurd rfl hkind

end TokenKind

/-! ## Refused tokens -/

section Refused

variable {origin : Source} {T : SymbolTable} {e : ParseError} {fault : GrammarFault}

/-- All but two faults are told of a token, which is the one that was found. -/
theorem ParseError.Refused.exists_token (h : e.Refused origin T)
    (hcause : e.cause = .grammatical fault) (hmember : fault ≠ .storedMember)
    (hbody : ∀ name, fault ≠ .invalidFunctionDefinition name) :
    ∃ (token : Token) (U : SymbolTable), token.Fresh origin U ∧
      e = .atToken token (.grammatical fault) ∧
      ∀ found, fault.found? = some found → found = token.kind := by
  cases h with
  | found hfresh hkind =>
      cases hcause
      exact ⟨_, _, hfresh, rfl, fun found hfound => Option.some.inj (hfound.symm.trans hkind)⟩
  | silent hfresh hnone =>
      cases hcause
      refine ⟨_, _, hfresh, rfl, fun found hfound => ?_⟩
      cases hnone.symm.trans hfound
  | storedMember =>
      cases hcause
      exact absurd rfl hmember
  | bodyRefused =>
      cases hcause
      exact absurd rfl (hbody _)
  | contradicted hinternal => cases hcause.symm.trans hinternal

/-- A token begins at a true position, where its text does. -/
theorem Token.Fresh.exists_lexeme {token : Token} {text : String} {file : Option String}
    (h : token.Fresh (.ofString text file) T) : ∃ front lexeme rest,
      text.toList = front ++ (lexeme ++ rest) ∧ token.position = .behind file front ∧
        token.kind.lexeme.Spelled lexeme ∧ token.kind.lexeme.EndsAt rest := by
  obtain ⟨w, ⟨n, t, -, hread⟩, hkind⟩ := Token.fresh_iff.1 h
  rw [hkind, SymbolTable.lexeme_classify]
  exact ((Source.standsIn_ofString text file).drop n).exists_lexeme hread

/-- Messages show something of every token, so its spelling alone tells how wide it is. -/
theorem Token.Fresh.width_eq {token : Token} (h : token.Fresh origin T) {lexeme : List Char}
    (hspelled : token.kind.lexeme.Spelled lexeme) (hkind : token.kind ≠ .endOfFile) :
    token.width = token.kind.spelling.length := by
  obtain ⟨w, -, hclass⟩ := Token.fresh_iff.1 h
  have hw : w ≠ .endOfFile := fun hw => hkind (hclass ▸ (T.classify_eq_endOfFile w).2 hw)
  rw [hclass, SymbolTable.lexeme_classify] at hspelled
  have hshown := (hspelled.canonical hw T).ne_nil hw
  rw [← hclass, ← List.length_pos_iff, String.length_toList] at hshown
  unfold Token.width
  split
  · rename_i hend
    exact absurd hend hkind
  · exact Nat.max_eq_right hshown

end Refused

namespace Parser

variable {text : String} {file : Option String} {e : ParseError}

/-- A refusal that is told of a token begins where the token does.  It reaches as many columns and
bytes on as messages show characters of the token, so it ends where the token does just if the token
is as long as that.  Told of a position alone are storage classes among the specifiers of a member
and bodies that cannot be. -/
theorem extent_of_parse {fault : GrammarFault} (h : parse text file = .error e)
    (hcause : e.cause = .grammatical fault) (hmember : fault ≠ .storedMember)
    (hbody : ∀ name, fault ≠ .invalidFunctionDefinition name) :
    ∃ front lexeme rest kind, text.toList = front ++ (lexeme ++ rest) ∧
      e.start = .behind file front ∧
      (Source.ofString text file).outlook.lexemeAt? e.start = some kind.lexeme ∧
      kind.Shows lexeme ∧ kind.lexeme.EndsAt rest ∧
      (∀ found, fault.found? = some found → found = kind) ∧
      (kind ≠ .endOfFile → e.stop = e.start.shift kind.spelling.length ∧
        (e.stop = .behind file (front ++ lexeme) ↔ kind.Measured lexeme)) := by
  have hnone : ∀ lexical, e.cause ≠ .lexical lexical := by
    rw [hcause]
    nofun
  have hplace := ((error_of_parse h).resolve_right fun hending => by
    obtain ⟨lexical, hlexical⟩ := lexical_of_ending hending
    exact hnone lexical hlexical).2
  have hrefused := (refused_of_parse h).resolve_left fun ⟨lexical, hlexical⟩ =>
    hnone lexical hlexical
  obtain ⟨token, table, hfresh, rfl, hfound⟩ := hrefused.exists_token hcause hmember hbody
  -- The token is the lexeme at its position, since positions of lexemes differ.
  have hat : (Source.ofString text file).outlook.lexemeAt? token.position =
      some token.kind.lexeme := by
    obtain ⟨w, hcuts, hclass⟩ := Token.fresh_iff.1 hfresh
    rw [hclass, SymbolTable.lexeme_classify]
    exact Source.lexemeAt?_of_cuts hcuts hplace
  obtain ⟨front, lexeme, rest, htext, hstart, hspelled, hends⟩ := hfresh.exists_lexeme
  refine ⟨front, lexeme, rest, token.kind, htext, hstart, hat, TokenKind.shows_of_spelled hspelled,
    hends, hfound, fun hkind => ?_⟩
  have hstop : (ParseError.atToken token (.grammatical fault)).stop =
      token.position.shift token.kind.spelling.length := by
    rw [← hfresh.width_eq hspelled hkind]
    rfl
  refine ⟨hstop, ?_⟩
  rw [hstop, TokenKind.measured_iff hspelled hkind,
    ← Position.advanceBy_eq_shift_iff hspelled.lineFeed_not_mem token.position, hstart,
    Position.advanceBy_behind]
  exact eq_comm

/-- The refusal of a string is as many columns wide as the string, but a byte short: the letter has
two of them. -/
theorem extent_of_parse_twoBytes : ∃ e, parse "char *s \"é\";" none = .error e ∧
    e.stop = { file := none, line := 1, column := 12, offset := 11 } ∧
    GrammarFault.expected (.punctuator .semicolon) (.string "é") ≠ .storedMember ∧
    (∀ name, GrammarFault.expected (.punctuator .semicolon) (.string "é") ≠
      .invalidFunctionDefinition name) ∧
    ∃ front lexeme rest kind, "char *s \"é\";".toList = front ++ (lexeme ++ rest) ∧
      e.start = .behind none front ∧
      (Source.ofString "char *s \"é\";" none).outlook.lexemeAt? e.start = some kind.lexeme ∧
      kind.Shows lexeme ∧ kind.lexeme.EndsAt rest ∧
      (∀ found, GrammarFault.found? (.expected (.punctuator .semicolon) (.string "é")) =
        some found → found = kind) ∧
      (kind ≠ .endOfFile → e.stop = e.start.shift kind.spelling.length ∧
        (e.stop = .behind none (front ++ lexeme) ↔ kind.Measured lexeme)) := by
  have hfails : (refusal? "char *s \"é\";" none).any (fun e =>
      e.cause = .grammatical (.expected (.punctuator .semicolon) (.string "é")) ∧
        e.stop = { file := none, line := 1, column := 12, offset := 11 }) = true := by
    decide +kernel
  obtain ⟨e, hparse, he⟩ := exists_error_of_any hfails
  obtain ⟨hcause, hstop⟩ := of_decide_eq_true he
  exact ⟨e, hparse, hstop, nofun, nofun, extent_of_parse hparse hcause nofun nofun⟩

/-- A hexadecimal constant is four characters long, and two when it is shown in decimal.  The lexer
goes on behind all four; the refusal of the constant ends behind two of them. -/
theorem hexadecimal_cut_short : ∃ e, parse "int x 0x1F;" none = .error e ∧
    e.cause = .grammatical (.expected (.punctuator .semicolon) (.integer 31)) ∧
    e.start = .behind none "int x ".toList ∧
    ((Source.ofString "int x 0x1F;" none).drop 6).nextToken .empty =
      (.ok { kind := .integer 31, position := e.start },
        { position := .behind none "int x 0x1F".toList, rest := [';'] }) ∧
    e.stop = { file := none, line := 1, column := 9, offset := 8 } ∧
    e.stop ≠ .behind none "int x 0x1F".toList := by
  have hfails : (refusal? "int x 0x1F;" none).any (fun e =>
      e.cause = .grammatical (.expected (.punctuator .semicolon) (.integer 31)) ∧
        e.start = .behind none "int x ".toList ∧
        e.stop = { file := none, line := 1, column := 9, offset := 8 }) = true := by
    decide +kernel
  obtain ⟨e, hparse, he⟩ := exists_error_of_any hfails
  obtain ⟨hcause, hstart, hstop⟩ := of_decide_eq_true he
  refine ⟨e, hparse, hcause, hstart, ?_, hstop, ?_⟩
  · rw [hstart]
    exact Prod.ext (by decide +kernel) (by decide +kernel)
  · rw [hstop]
    decide +kernel

end Parser
end CSyntax
