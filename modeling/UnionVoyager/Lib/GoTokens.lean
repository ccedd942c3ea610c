import UnionVoyager.Lib.Machine

/-!
# Tokens of Go source

A lexer of Go source as a machine that reads one character after another, with the automatic semicolons of the
language.  It knows the tokens that declarations, calls and composite literals need; other text is rejected.

* `step`, `lex` — the machine, and the tokens of a text.
* `literal_spec` — what an interpreted string literal denotes: its text, or fewer bytes than that.
* `plain_of_literal` — **a text between quotes denotes itself only if it is plain**: no quote,
  backslash or newline.
-/

namespace Lib.Go

open Lib List

inductive Token where
  | ident (name : List Char)
  | keyword (name : List Char)
  | int (n : Nat)
  | str (bytes : List UInt8)
  | punct (c : Char)
  | define
  deriving DecidableEq

def isLetter (c : Char) : Bool := c.isAlpha || c == '_'

def keywords : List (List Char) :=
  ["break", "case", "chan", "const", "continue", "default", "defer", "else", "fallthrough", "for",
    "func", "go", "goto",
    "if", "import", "interface", "map", "package", "range", "return", "select", "struct", "switch", "type",
    "var"].map String.toList

def wordToken (name : List Char) : Token := if name ∈ keywords then .keyword name else .ident name

/-- A newline after the token is a semicolon. -/
def Token.ends : Token → Bool
  | .ident _ => true
  | .keyword name => name ∈ ["break", "continue", "fallthrough", "return"].map String.toList
  | .int _ => true
  | .str _ => true
  | .punct c => c ∈ [')', ']', '}']
  | .define => false

/-- The UTF-8 bytes of a text. -/
def utf8 (cs : List Char) : List UInt8 := cs.flatMap String.utf8EncodeChar

/-- The escapes that give a code. -/
inductive Escape where
  | octal
  | byte
  | short
  | long
  deriving DecidableEq

namespace Escape

def base : Escape → Nat
  | octal => 8
  | _ => 16

/-- The number of digits. -/
def size : Escape → Nat
  | octal => 3
  | byte => 2
  | short => 4
  | long => 8

attribute [local grind =] size

/-- The characters before the digits. -/
def lead : Escape → Nat
  | octal => 1
  | _ => 2

attribute [local grind =] lead

/-- The bytes that a code denotes. -/
def bytes : Escape → Nat → Option (List UInt8)
  | octal, n => if n < 256 then some [UInt8.ofNat n] else none
  | byte, n => some [UInt8.ofNat n]
  | _, n => if n.isValidChar then some (String.utf8EncodeChar (Char.ofNat n)) else none

attribute [local grind =] bytes

end Escape

def digitOf (base : Nat) (c : Char) : Option Nat :=
  let n :=
    if '0' ≤ c ∧ c ≤ '9' then c.toNat - 48
    else if 'a' ≤ c ∧ c ≤ 'f' then c.toNat - 87
    else if 'A' ≤ c ∧ c ≤ 'F' then c.toNat - 55
    else base
  if n < base then some n else none

attribute [local grind =] digitOf

/-- What an escape of one character denotes. -/
def simpleEscape : Char → Option UInt8
  | 'a' => some 7
  | 'b' => some 8
  | 'f' => some 12
  | 'n' => some 10
  | 'r' => some 13
  | 't' => some 9
  | 'v' => some 11
  | '\\' => some 92
  | '"' => some 34
  | _ => none

/-- Where the lexer stands.  `semi`: a newline is a semicolon here. -/
inductive Mode where
  | gap (semi : Bool)
  | word (name : List Char)
  | number (n : Nat)
  | slash (semi : Bool)
  | comment (semi : Bool)
  | colon
  | str (bytes : List UInt8)
  | escape (bytes : List UInt8)
  | code (bytes : List UInt8) (kind : Escape) (left n : Nat)
  | bad
  deriving DecidableEq

/-- Characters that may not stand in source text: the NUL and the byte order mark. -/
def refused (c : Char) : Bool := c == Char.ofNat 0 || c == Char.ofNat 0xFEFF

/-- Between two tokens. -/
def gapStep (semi : Bool) (c : Char) : Mode × List Token :=
  if c = '\n' then (.gap false, if semi then [.punct ';'] else [])
  else if c = ' ' ∨ c = '\t' ∨ c = '\r' then (.gap semi, [])
  else if isLetter c then (.word [c], [])
  else if c.isDigit then (.number (c.toNat - 48), [])
  else if c = '"' then (.str [], [])
  else if c = '/' then (.slash semi, [])
  else if c = ':' then (.colon, [])
  else if c ∈ ['(', '[', '{', ',', ';', '.', '='] then (.gap false, [.punct c])
  else if c ∈ [')', ']', '}'] then (.gap true, [.punct c])
  else (.bad, [])

/-- A token that has ended before the character. -/
def afterToken (t : Token) (c : Char) : Mode × List Token :=
  let out := gapStep t.ends c
  (out.1, t :: out.2)

def strStep (bytes : List UInt8) (c : Char) : Mode × List Token :=
  if c = '"' then (.gap true, [.str bytes])
  else if c = '\\' then (.escape bytes, [])
  else if c = '\n' ∨ refused c then (.bad, [])
  else (.str (bytes ++ String.utf8EncodeChar c), [])

def escapeStep (bytes : List UInt8) (c : Char) : Mode :=
  match simpleEscape c with
  | some b => .str (bytes ++ [b])
  | none =>
    if c = 'x' then .code bytes .byte 2 0
    else if c = 'u' then .code bytes .short 4 0
    else if c = 'U' then .code bytes .long 8 0
    else match digitOf 8 c with
      | some d => .code bytes .octal 2 d
      | none => .bad

def codeStep (bytes : List UInt8) (kind : Escape) (left n : Nat) (c : Char) : Mode :=
  match digitOf kind.base c with
  | none => .bad
  | some d =>
    let n := n * kind.base + d
    match left with
    | 0 => .bad
    | 1 =>
      match kind.bytes n with
      | some bs => .str (bytes ++ bs)
      | none => .bad
    | left + 2 => .code bytes kind (left + 1) n

attribute [local grind =] codeStep

def step : Mode → Char → Mode × List Token
  | .gap semi, c => gapStep semi c
  | .word name, c =>
    if isLetter c || c.isDigit then (.word (name ++ [c]), []) else afterToken (wordToken name) c
  | .number n, c =>
    if c.isDigit then (if n = 0 then .bad else .number (n * 10 + (c.toNat - 48)), [])
    else if isLetter c || c == '.' then (.bad, [])
    else afterToken (.int n) c
  | .slash semi, c => (if c = '/' then .comment semi else .bad, [])
  | .comment semi, c =>
    if c = '\n' then gapStep semi c else if refused c then (.bad, []) else (.comment semi, [])
  | .colon, c =>
    if c = '=' then (.gap false, [.define])
    else
      let out := gapStep false c
      (out.1, .punct ':' :: out.2)
  | .str bytes, c => strStep bytes c
  | .escape bytes, c => (escapeStep bytes c, [])
  | .code bytes kind left n, c => (codeStep bytes kind left n c, [])
  | .bad, _ => (.bad, [])

attribute [local grind =] step

/-- The end of the text. -/
def finish : Mode → Option (List Token)
  | .gap semi => some (if semi then [.punct ';'] else [])
  | .word name => some (wordToken name :: if (wordToken name).ends then [.punct ';'] else [])
  | .number n => some [.int n, .punct ';']
  | .comment semi => some (if semi then [.punct ';'] else [])
  | .colon => some [.punct ':']
  | _ => none

/-- The tokens of the rest of a text. -/
def lexFrom (m : Mode) (cs : List Char) : Option (List Token) :=
  (finish (Machine.run step m cs)).map (Machine.trace step m cs ++ ·)

def lex (text : String) : Option (List Token) := lexFrom (.gap false) text.toList

/-! ## Parts of a text -/

/-- From `m`, the part leads to `m'` and gives the tokens. -/
def Lexes (m : Mode) (cs : List Char) (m' : Mode) (ts : List Token) : Prop :=
  Machine.run step m cs = m' ∧ Machine.trace step m cs = ts

instance (m : Mode) (cs : List Char) (m' : Mode) (ts : List Token) : Decidable (Lexes m cs m' ts) :=
  inferInstanceAs (Decidable (_ ∧ _))

theorem lexes_nil (m : Mode) : Lexes m [] m [] := ⟨rfl, rfl⟩

variable {m m' : Mode} {c : Char} {ts ts' out after : List Token}

theorem lexes_one (h : step m c = (m', ts)) : Lexes m [c] m' ts := by
  constructor
  · rw [Machine.run, h]
    rfl
  · rw [Machine.trace, h]
    exact List.append_nil ts

variable {cs rest s line : List Char}

theorem Lexes.append {m'' : Mode} {cs' : List Char} (h : Lexes m cs m' ts)
    (h' : Lexes m' cs' m'' ts') : Lexes m (cs ++ cs') m'' (ts ++ ts') := by
  obtain ⟨rfl, rfl⟩ := h
  obtain ⟨rfl, rfl⟩ := h'
  exact ⟨Machine.run_append .., Machine.trace_append ..⟩

theorem lexFrom_append (h : Lexes m cs m' ts) (rest : List Char) :
    lexFrom m (cs ++ rest) = (lexFrom m' rest).map (ts ++ ·) := by
  obtain ⟨rfl, rfl⟩ := h
  simp only [lexFrom, Machine.run_append, Machine.trace_append, Option.map_map]
  congr 1
  funext out
  exact List.append_assoc ..

theorem lexFrom_eq_some (h : Lexes m cs (.gap false) ts) : lexFrom m cs = some ts := by
  have hend := lexFrom_append h []
  rw [List.append_nil] at hend
  rw [hend]
  show some (ts ++ []) = some ts
  rw [List.append_nil]

theorem lexFrom_cons (m : Mode) (c : Char) (cs : List Char) :
    lexFrom m (c :: cs) = (lexFrom (step m c).1 cs).map ((step m c).2 ++ ·) :=
  lexFrom_append (lexes_one rfl) cs

theorem lexFrom_bad (cs : List Char) : lexFrom .bad cs = none := by
  induction cs with
  | nil => rfl
  | cons c cs ih =>
    rw [lexFrom_cons]
    show (lexFrom .bad cs).map _ = none
    rw [ih]
    rfl

/-- A character with which no word and no number goes on. -/
def Breaks (c : Char) : Prop := isLetter c = false ∧ c.isDigit = false ∧ c ≠ '.'

instance (c : Char) : Decidable (Breaks c) := inferInstanceAs (Decidable (_ ∧ _))

/-- What the part gives when it starts between two tokens and something that breaks words follows. -/
def Spells (cs : List Char) (ts : List Token) : Prop :=
  ∀ c, Breaks c → Lexes (.gap false) (cs ++ [c]) (gapStep true c).1 (ts ++ (gapStep true c).2)

theorem spells_of_lexes (h : Lexes (.gap false) cs (.gap true) ts) : Spells cs ts := fun _ _ =>
    h.append (lexes_one rfl)

/-- The part starts with a character that breaks words. -/
def Opens : List Char → Prop
  | [] => False
  | c :: _ => Breaks c

instance : ∀ cs : List Char, Decidable (Opens cs)
  | [] => inferInstanceAs (Decidable False)
  | c :: _ => inferInstanceAs (Decidable (Breaks c))

/-- A part that breaks words goes on after one that may not be touched. -/
theorem Spells.append (h : Spells cs ts) (hopen : Opens rest) (h' : Lexes (.gap true) rest m ts') :
    Lexes (.gap false) (cs ++ rest) m (ts ++ ts') := by
  match rest, hopen with
  | c :: rest, hopen =>
    obtain ⟨rfl, rfl⟩ := h'
    have hrest : Lexes (gapStep true c).1 rest (Machine.run step (gapStep true c).1 rest)
        (Machine.trace step (gapStep true c).1 rest) := ⟨rfl, rfl⟩
    have happ := (h c hopen).append hrest
    rw [List.append_assoc, List.append_assoc] at happ
    exact happ

/-! ### Words and numbers -/

theorem ne_of_isLetter {d : Char} (h : isLetter c = true) (hd : isLetter d = false) : c ≠ d := by
  rintro rfl
  rw [h] at hd
  cases hd

theorem gapStep_letter (h : isLetter c = true) (semi : Bool) : gapStep semi c = (.word [c], []) := by
  have hblank : ¬ (c = ' ' ∨ c = '\t' ∨ c = '\r') := by
    rintro (rfl | rfl | rfl) <;> exact absurd h (by decide)
  rw [gapStep, if_neg (ne_of_isLetter h rfl), if_neg hblank, if_pos h]

/-- The text of an identifier. -/
def isName : List Char → Bool
  | [] => false
  | c :: cs => isLetter c && cs.all (fun c => isLetter c || c.isDigit) && (c :: cs) ∉ keywords

theorem lexes_word (h : cs.all (fun c => isLetter c || c.isDigit) = true) (name : List Char) :
    Lexes (.word name) cs (.word (name ++ cs)) [] := by
  induction cs generalizing name with
  | nil =>
    rw [List.append_nil]
    exact lexes_nil _
  | cons c cs ih =>
    rw [List.all_cons, Bool.and_eq_true] at h
    have hstep : step (.word name) c = (.word (name ++ [c]), []) := by
      simp only [step, if_pos h.1]
    have hrest := ih h.2 (name ++ [c])
    rw [List.append_assoc] at hrest
    exact (lexes_one hstep).append hrest

theorem spells_name (h : isName cs = true) : Spells cs [.ident cs] := by
  cases cs with
  | nil => cases h
  | cons c cs =>
    simp only [isName, Bool.and_eq_true, decide_eq_true_eq] at h
    obtain ⟨⟨hletter, hall⟩, hkey⟩ := h
    intro d hd
    have hword : wordToken (c :: cs) = .ident (c :: cs) := if_neg hkey
    have hlast : step (.word ([c] ++ cs)) d =
        ((gapStep true d).1, .ident (c :: cs) :: (gapStep true d).2) := by
      simp [step, hd.1, hd.2.1, afterToken, hword, Token.ends]
    exact ((lexes_one (m := .gap false) (gapStep_letter hletter false)).append
      (lexes_word hall [c])).append (lexes_one hlast)

theorem lexes_toDigits (n : Nat) : Lexes (.gap false) (Nat.toDigits 10 n) (.number n) [] := by
  induction n using Nat.strongRecOn with
  | ind n ih =>
    rw [Nat.toDigits_eq_if (by decide)]
    split
    · rename_i hlt
      have hone : ∀ d < 10, step (.gap false) (Nat.digitChar d) = (.number d, []) := by decide
      exact lexes_one (hone n hlt)
    · rename_i hle
      have hdigit : ∀ d < 10, (Nat.digitChar d).isDigit = true ∧ (Nat.digitChar d).toNat - 48 = d := by decide
      obtain ⟨hd, hval⟩ := hdigit (n % 10) (Nat.mod_lt _ (by decide))
      have hstep : step (.number (n / 10)) (Nat.digitChar (n % 10)) = (.number n, []) := by
        have hpos : n / 10 ≠ 0 := by omega
        have hsum : n / 10 * 10 + n % 10 = n := by omega
        simp only [step, if_pos hd, if_neg hpos, hval, hsum]
      exact (ih (n / 10) (by omega)).append (lexes_one hstep)

theorem spells_int (n : Nat) : Spells (toString n).toList [.int n] := by
  intro c hc
  have hrepr : (toString n).toList = Nat.toDigits 10 n := Nat.toList_repr
  have hlast : step (.number n) c = ((gapStep true c).1, .int n :: (gapStep true c).2) := by
    have hdot : (c == '.') = false := beq_false_of_ne hc.2.2
    simp [step, hc.1, hc.2.1, hdot, afterToken, Token.ends]
  rw [hrepr]
  exact (lexes_toDigits n).append (lexes_one hlast)

/-! ### Comments -/

/-- A text that stays within a comment. -/
def isComment (cs : List Char) : Bool := cs.all fun c => c != '\n' && !refused c

theorem lexes_comment (h : isComment cs = true) (semi : Bool) :
    Lexes (.comment semi) cs (.comment semi) [] := by
  induction cs with
  | nil => exact lexes_nil _
  | cons c cs ih =>
    simp only [isComment, List.all_cons, Bool.and_eq_true, bne_iff_ne, Bool.not_eq_true'] at h
    obtain ⟨⟨hline, href⟩, hrest⟩ := h
    have hstep : step (.comment semi) c = (.comment semi, []) := by
      simp only [step, if_neg hline, href, Bool.false_eq_true, if_false]
    exact (lexes_one hstep).append (ih hrest)

/-! ### Interpreted string literals -/

/-- A text that stands for itself between quotes. -/
def Plain (s : List Char) : Prop := ∀ c ∈ s, c ≠ '"' ∧ c ≠ '\\' ∧ c ≠ '\n' ∧ refused c = false

instance (s : List Char) : Decidable (Plain s) := inferInstanceAs (Decidable (∀ c ∈ s, _))

@[simp] theorem utf8_nil : utf8 [] = [] := rfl

@[simp] theorem utf8_cons (c : Char) (cs : List Char) :
    utf8 (c :: cs) = String.utf8EncodeChar c ++ utf8 cs := by
  simp [utf8]

@[simp] theorem utf8_append (cs ds : List Char) : utf8 (cs ++ ds) = utf8 cs ++ utf8 ds := by simp [utf8]

theorem length_le_utf8 (cs : List Char) : cs.length ≤ (utf8 cs).length := by
  induction cs with
  | nil => exact Nat.le_refl 0
  | cons c cs ih =>
    have hpos := c.utf8Size_pos
    simp only [utf8_cons, length_append, length_cons, String.length_utf8EncodeChar]
    omega

theorem strStep_plain (h : c ≠ '"' ∧ c ≠ '\\' ∧ c ≠ '\n' ∧ refused c = false) (bytes : List UInt8) :
    strStep bytes c = (.str (bytes ++ String.utf8EncodeChar c), []) := by
  obtain ⟨hquote, hback, hline, href⟩ := h
  have hbad : ¬ (c = '\n' ∨ refused c = true) := by
    rintro (hc | hc)
    · exact hline hc
    · rw [href] at hc
      cases hc
  rw [strStep, if_neg hquote, if_neg hback, if_neg hbad]

/-- Texts with the same bytes are the same. -/
theorem utf8_injective {ds : List Char} (h : utf8 cs = utf8 ds) : cs = ds := by
  have hencode : cs.utf8Encode = ds.utf8Encode := by
    rw [List.utf8Encode, List.utf8Encode]
    exact congrArg List.toByteArray h
  have hstring : String.ofList cs = String.ofList ds := by
    apply String.toByteArray_inj.mp
    rw [String.toByteArray_ofList, String.toByteArray_ofList, hencode]
  exact String.ofList_injective hstring

theorem lexes_plain (h : Plain s) (bytes : List UInt8) :
    Lexes (.str bytes) s (.str (bytes ++ utf8 s)) [] := by
  induction s generalizing bytes with
  | nil =>
    rw [utf8_nil, List.append_nil]
    exact lexes_nil _
  | cons c s ih =>
    have hrest := ih (fun d hd => h d (List.mem_cons_of_mem c hd)) (bytes ++ String.utf8EncodeChar c)
    rw [List.append_assoc, ← utf8_cons] at hrest
    exact (lexes_one (m := .str bytes) (strStep_plain (h c List.mem_cons_self) bytes)).append hrest

/-- Inside of a literal: its bytes so far, and how many characters of an escape have been read. -/
inductive Inside : Mode → List UInt8 → Nat → Prop where
  | str (bytes : List UInt8) : Inside (.str bytes) bytes 0
  | escape (bytes : List UInt8) : Inside (.escape bytes) bytes 1
  | code (bytes : List UInt8) (kind : Escape) (left n : Nat) (hleft : left ≤ kind.size) :
      Inside (.code bytes kind left n) bytes (kind.lead + (kind.size - left))

theorem Escape.length_bytes {kind : Escape} {n : Nat} {bs : List UInt8} (h : kind.bytes n = some bs) :
    bs.length < kind.lead + kind.size := by
  have hfour : ∀ c : Char, (String.utf8EncodeChar c).length ≤ 4 := fun c => by
    rw [String.length_utf8EncodeChar]
    exact c.utf8Size_le_four
  cases kind with
  | octal =>
    simp only [Escape.bytes] at h
    split at h
    · cases h
      exact Nat.lt_of_lt_of_le Nat.one_lt_two (by decide)
    · cases h
  | byte =>
    cases h
    exact Nat.lt_of_lt_of_le Nat.one_lt_two (by decide)
  | short | long =>
    simp only [Escape.bytes] at h
    split at h
    · cases h
      have hlen := hfour (Char.ofNat n)
      simp only [Escape.lead, Escape.size]
      omega
    · cases h

/-- A character that goes on with a literal otherwise than by itself. -/
structure Escaped (m m' : Mode) (bytes bs : List UInt8) (c : Char) (w w' : Nat) : Prop where
  moves : step m c = (m', [])
  inside : Inside m' (bytes ++ bs) w'
  line : c ≠ '\n'
  width : bs.length + w' ≤ w + 1
  shorter : w' = 0 → bs.length < w + 1

theorem escape_step (bytes : List UInt8) (c : Char) :
    step (.escape bytes) c = (.bad, []) ∨ ∃ m' bs w', Escaped (.escape bytes) m' bytes bs c 1 w' := by
  by_cases hline : c = '\n'
  · subst hline
    exact .inl rfl
  · have hstep : step (.escape bytes) c = (escapeStep bytes c, []) := rfl
    have hcode : ∀ kind left n, escapeStep bytes c = .code bytes kind left n → left ≤ kind.size →
        kind.lead + (kind.size - left) = 2 →
        ∃ m' bs w', Escaped (.escape bytes) m' bytes bs c 1 w' := by
      intro kind left n hmode hleft hwidth
      refine ⟨_, [], kind.lead + (kind.size - left), by rw [hstep, hmode], ?_, hline, ?_, ?_⟩
      · rw [List.append_nil]
        exact .code bytes kind left n hleft
      · simp only [List.length_nil, Nat.zero_add, hwidth, Nat.le_refl]
      · intro _
        exact Nat.succ_pos 1
    cases hs : simpleEscape c with
    | some b =>
      have hmode : escapeStep bytes c = .str (bytes ++ [b]) := by simp only [escapeStep, hs]
      exact .inr ⟨_, [b], 0, by rw [hstep, hmode], .str _, hline, Nat.le_succ 1, fun _ => Nat.lt_succ_self 1⟩
    | none =>
      by_cases hx : c = 'x'
      · subst hx
        exact .inr (hcode .byte 2 0 rfl (by decide) (by decide))
      · by_cases hu : c = 'u'
        · subst hu
          exact .inr (hcode .short 4 0 rfl (by decide) (by decide))
        · by_cases hU : c = 'U'
          · subst hU
            exact .inr (hcode .long 8 0 rfl (by decide) (by decide))
          · cases hd : digitOf 8 c with
            | some d =>
              have hmode : escapeStep bytes c = .code bytes .octal 2 d := by
                simp only [escapeStep, hs, hd, if_neg hx, if_neg hu, if_neg hU]
              exact .inr (hcode .octal 2 d hmode (by decide) (by decide))
            | none =>
              refine .inl ?_
              rw [hstep]
              simp only [escapeStep, hs, hd, if_neg hx, if_neg hu, if_neg hU]

theorem code_step (bytes : List UInt8) (kind : Escape) (left n : Nat) (hleft : left ≤ kind.size) (c : Char) :
    step (.code bytes kind left n) c = (.bad, []) ∨
      ∃ m' bs w', Escaped (.code bytes kind left n) m' bytes bs c (kind.lead + (kind.size - left)) w' := by
  have hstep : step (.code bytes kind left n) c = (codeStep bytes kind left n c, []) := rfl
  cases hd : digitOf kind.base c with
  | none => exact .inl (by rw [hstep]; simp only [codeStep, hd])
  | some d =>
    have hline : c ≠ '\n' := by
      rintro rfl
      cases kind <;> cases hd
    match left, hleft with
    | 0, _ => exact .inl (by rw [hstep]; simp only [codeStep, hd])
    | 1, hleft =>
      cases hb : kind.bytes (n * kind.base + d) with
      | none => exact .inl (by rw [hstep]; simp only [codeStep, hd, hb])
      | some bs =>
        have hlen := Escape.length_bytes hb
        have hmode : codeStep bytes kind 1 n c = .str (bytes ++ bs) := by simp only [codeStep, hd, hb]
        exact .inr ⟨_, bs, 0, by rw [hstep, hmode], .str _, hline, by omega, fun _ => by omega⟩
    | left + 2, hleft =>
      have hmode : codeStep bytes kind (left + 2) n c = .code bytes kind (left + 1) (n * kind.base + d) := by
        simp only [codeStep, hd]
      refine .inr ⟨_, [], kind.lead + (kind.size - (left + 1)), by rw [hstep, hmode], ?_, hline, ?_, ?_⟩
      · rw [List.append_nil]
        exact .code bytes kind (left + 1) _ (by omega)
      · rw [List.length_nil]
        omega
      · intro hzero
        rw [List.length_nil]
        omega

theorem str_step (bytes : List UInt8) (hquote : c ≠ '"') :
    step (.str bytes) c = (.bad, []) ∨ (c ≠ '"' ∧ c ≠ '\\' ∧ c ≠ '\n' ∧ refused c = false) ∨
      ∃ m' bs w', Escaped (.str bytes) m' bytes bs c 0 w' := by
  have hstep : step (.str bytes) c = strStep bytes c := rfl
  by_cases hback : c = '\\'
  · subst hback
    refine .inr (.inr ⟨.escape bytes, [], 1, rfl, ?_, by decide, by decide, by nofun⟩)
    rw [List.append_nil]
    exact .escape bytes
  · by_cases hbad : c = '\n' ∨ refused c = true
    · exact .inl (by rw [hstep, strStep, if_neg hquote, if_neg hback, if_pos hbad])
    · rw [not_or, Bool.not_eq_true] at hbad
      exact .inr (.inl ⟨hquote, hback, hbad.1, hbad.2⟩)

variable {bytes : List UInt8} {w : Nat}

theorem inside_step (h : Inside m bytes w) (c : Char) : (m = .str bytes ∧ w = 0 ∧ c = '"') ∨
      step m c = (.bad, []) ∨
      (m = .str bytes ∧ w = 0 ∧ c ≠ '"' ∧ c ≠ '\\' ∧ c ≠ '\n' ∧ refused c = false) ∨
      ∃ m' bs w', Escaped m m' bytes bs c w w' := by
  cases h with
  | str =>
    by_cases hquote : c = '"'
    · exact .inl ⟨rfl, rfl, hquote⟩
    · rcases str_step bytes hquote with hbad | hplain | hesc
      · exact .inr (.inl hbad)
      · exact .inr (.inr (.inl ⟨rfl, rfl, hplain⟩))
      · exact .inr (.inr (.inr hesc))
  | escape =>
    rcases escape_step bytes c with hbad | hesc
    · exact .inr (.inl hbad)
    · exact .inr (.inr (.inr hesc))
  | code _ kind left n hleft =>
    rcases code_step bytes kind left n hleft c with hbad | hesc
    · exact .inr (.inl hbad)
    · exact .inr (.inr (.inr hesc))

/-- A literal that is read to its closing quote: the text taken by it, the text after it, and what
    it denotes. -/
structure Literal (cs : List Char) (bytes : List UInt8) (w : Nat) (out : List Token)
    (taken rest : List Char) (v : List UInt8) (after : List Token) : Prop where
  text : cs = taken ++ '"' :: rest
  line : '\n' ∉ taken
  tokens : out = .str (bytes ++ v) :: after
  lexed : lexFrom (.gap true) rest = some after
  value : v.length < w + (utf8 taken).length ∨ w = 0 ∧ v = utf8 taken ∧ Plain taken

theorem Literal.plain_cons {taken : List Char} {v : List UInt8}
    (h : Literal cs (bytes ++ String.utf8EncodeChar c) 0 out taken rest v after)
    (hc : c ≠ '"' ∧ c ≠ '\\' ∧ c ≠ '\n' ∧ refused c = false) :
    Literal (c :: cs) bytes 0 out (c :: taken) rest (String.utf8EncodeChar c ++ v) after := by
  refine ⟨by rw [h.text]; rfl, ?_, by rw [h.tokens, append_assoc], h.lexed, ?_⟩
  · rw [mem_cons, not_or]
    exact ⟨Ne.symm hc.2.2.1, h.line⟩
  · rcases h.value with hlt | ⟨-, hv, hplain⟩
    · left
      simp only [utf8_cons, length_append]
      omega
    · right
      refine ⟨rfl, by rw [hv, utf8_cons], ?_⟩
      intro d hd
      rcases List.mem_cons.mp hd with rfl | hd
      · exact hc
      · exact hplain d hd

theorem Literal.escaped_cons {taken : List Char} {bs v : List UInt8} {w' : Nat}
    (h : Literal cs (bytes ++ bs) w' out taken rest v after) (hc : Escaped m m' bytes bs c w w') :
    Literal (c :: cs) bytes w out (c :: taken) rest (bs ++ v) after := by
  refine ⟨by rw [h.text]; rfl, ?_, by rw [h.tokens, append_assoc], h.lexed, .inl ?_⟩
  · rw [mem_cons, not_or]
    exact ⟨Ne.symm hc.line, h.line⟩
  · have hpos := c.utf8Size_pos
    have hwidth := hc.width
    simp only [utf8_cons, length_append, String.length_utf8EncodeChar]
    rcases h.value with hlt | ⟨hzero, hv, -⟩
    · omega
    · have hshort := hc.shorter hzero
      rw [hv]
      omega

theorem literal_spec (hin : Inside m bytes w) (h : lexFrom m cs = some out) :
    ∃ taken rest v after, Literal cs bytes w out taken rest v after := by
  induction cs generalizing m bytes w out with
  | nil => cases hin <;> cases h
  | cons c cs ih =>
    rw [lexFrom_cons, Option.map_eq_some_iff] at h
    obtain ⟨out', hout', rfl⟩ := h
    rcases inside_step hin c with ⟨rfl, rfl, rfl⟩ | hbad | ⟨rfl, rfl, hplain⟩ | ⟨m', bs, w', hesc⟩
    · refine ⟨[], cs, [], out', rfl, not_mem_nil, ?_, hout', .inr ⟨rfl, rfl, nofun⟩⟩
      rw [append_nil]
      rfl
    · rw [hbad, lexFrom_bad] at hout'
      cases hout'
    · have hstep : step (.str bytes) c = (.str (bytes ++ String.utf8EncodeChar c), []) :=
        strStep_plain hplain bytes
      rw [hstep] at hout' ⊢
      obtain ⟨taken, rest, v, after, hlit⟩ := ih (.str _) hout'
      exact ⟨c :: taken, rest, _, after, hlit.plain_cons hplain⟩
    · rw [hesc.moves] at hout' ⊢
      obtain ⟨taken, rest, v, after, hlit⟩ := ih hesc.inside hout'
      exact ⟨c :: taken, rest, _, after, hlit.escaped_cons hesc⟩

theorem newline_mem {post more : List Char} (hline : '"' ∉ line)
    (h : more ++ '"' :: rest = line ++ '\n' :: post) : '\n' ∈ more := by
  rcases List.append_eq_append_iff.mp h with ⟨last, rfl, hlast⟩ | ⟨last, rfl, hlast⟩
  · cases last with
    | nil => cases hlast
    | cons c last =>
      obtain ⟨rfl, -⟩ := List.cons.inj hlast
      exact absurd (mem_append_right more mem_cons_self) hline
  · cases last with
    | nil => cases hlast
    | cons c last =>
      obtain ⟨rfl, -⟩ := List.cons.inj hlast
      exact mem_append_right line mem_cons_self

theorem plain_of_literal {post : List Char} (hline : '"' ∉ line)
    (h : lexFrom (.str []) (s ++ '"' :: (line ++ '\n' :: post)) = some out)
    (hout : out = .str (utf8 s) :: after) : Plain s := by
  obtain ⟨taken, rest, v, after', hlit⟩ := literal_spec (.str []) h
  have hv : v = utf8 s := by
    have heq := hlit.tokens.symm.trans hout
    rw [nil_append] at heq
    exact Token.str.inj (List.cons.inj heq).1
  rcases List.append_eq_append_iff.mp hlit.text.symm with ⟨more, hs, hrest⟩ | ⟨more, htaken, hrest⟩
  · -- the literal ends within the text
    subst hs
    rw [utf8_append] at hv
    have hlen := congrArg length hv
    have hmore := length_le_utf8 more
    rw [length_append] at hlen
    rcases hlit.value with hlt | ⟨-, hv', hplain⟩
    · omega
    · rw [hv'] at hlen
      have hnil : more = [] := eq_nil_of_length_eq_zero (by omega)
      rw [hnil, append_nil]
      exact hplain
  · -- the literal goes on behind the text
    cases more with
    | nil =>
      rw [append_nil] at htaken
      rcases hlit.value with hlt | ⟨-, -, hplain⟩
      · rw [htaken, hv] at hlt
        omega
      · rwa [htaken] at hplain
    | cons c more =>
      rw [cons_append] at hrest
      obtain ⟨rfl, htail⟩ := List.cons.inj hrest
      have hmem : '\n' ∈ taken := by
        rw [htaken]
        exact mem_append_right s (mem_cons_of_mem _ (newline_mem hline htail.symm))
      exact absurd hmem hlit.line

/-! ## Texts with others spliced in -/

def Token.string? : Token → Option (List UInt8)
  | .str bytes => some bytes
  | _ => none

/-- What the string literals denote. -/
def strings (ts : List Token) : List (List UInt8) := ts.filterMap Token.string?

@[simp] theorem strings_nil : strings [] = [] := rfl

@[simp] theorem strings_cons_str (bytes : List UInt8) (ts : List Token) :
    strings (.str bytes :: ts) = bytes :: strings ts := rfl

@[simp] theorem strings_append (ts ts' : List Token) : strings (ts ++ ts') = strings ts ++ strings ts' :=
  filterMap_append ..

/-- A part of a text in which `ss` are spliced in between quotes.  If these are plain the part leads
from `m` to `m'` with the tokens; and if the literals of a text with the part denote what was
spliced in, it was plain. -/
structure Reads (m : Mode) (cs : List Char) (m' : Mode) (ts : List Token) (ss : List (List Char)) : Prop where
  denotes : strings ts = ss.map utf8
  lexes : (∀ s ∈ ss, Plain s) → Lexes m cs m' ts
  plain : ∀ rest out more, lexFrom m (cs ++ rest) = some out → strings out = ss.map utf8 ++ more →
    ∀ s ∈ ss, Plain s

theorem reads_of_lexes (h : Lexes m cs m' ts) (hts : strings ts = []) : Reads m cs m' ts [] :=
  ⟨hts, fun _ => h, fun _ _ _ _ _ => nofun⟩

theorem Reads.append {m'' : Mode} {cs' : List Char} {ss ss' : List (List Char)} (h : Reads m cs m' ts ss)
    (h' : Reads m' cs' m'' ts' ss') : Reads m (cs ++ cs') m'' (ts ++ ts') (ss ++ ss') := by
  refine ⟨by rw [strings_append, h.denotes, h'.denotes, map_append], ?_, ?_⟩
  · intro hplain
    rw [forall_mem_append] at hplain
    exact (h.lexes hplain.1).append (h'.lexes hplain.2)
  · intro rest out more hlex hout
    rw [append_assoc] at hlex
    rw [map_append, append_assoc] at hout
    have hss := h.plain (cs' ++ rest) out _ hlex hout
    rw [lexFrom_append (h.lexes hss), Option.map_eq_some_iff] at hlex
    obtain ⟨out', hlex', rfl⟩ := hlex
    rw [strings_append, h.denotes] at hout
    have hss' := h'.plain rest out' more hlex' (append_cancel_left hout)
    exact List.forall_mem_append.mpr ⟨hss, hss'⟩

theorem reads_quoted {semi : Bool} (hline : '"' ∉ line)
    (h : Lexes (.gap true) (line ++ ['\n']) (.gap false) ts) (hts : strings ts = []) :
    Reads (.gap semi) ('"' :: (s ++ '"' :: (line ++ ['\n']))) (.gap false) (.str (utf8 s) :: ts) [s] := by
  have hopen : ∀ cs, lexFrom (.gap semi) ('"' :: cs) = lexFrom (.str []) cs := by
    intro cs
    rw [lexFrom_cons]
    exact Option.map_id' ..
  refine ⟨by rw [strings_cons_str, hts]; rfl, ?_, ?_⟩
  · intro hplain
    have hs : Lexes (.str []) s (.str (utf8 s)) [] := lexes_plain (hplain s mem_cons_self) []
    have hquote : Lexes (.str (utf8 s)) ['"'] (.gap true) [.str (utf8 s)] := lexes_one rfl
    have hfirst : Lexes (.gap semi) ['"'] (.str []) [] := lexes_one rfl
    exact hfirst.append (hs.append (hquote.append h))
  · intro rest out more hlex hout t ht
    rw [List.mem_singleton.mp ht]
    rw [cons_append, hopen, append_assoc, cons_append, append_assoc] at hlex
    obtain ⟨taken, rest', v, after, hlit⟩ := literal_spec (.str []) hlex
    rw [hlit.tokens, nil_append, strings_cons_str] at hout
    have hv := (List.cons.inj hout).1
    exact plain_of_literal hline hlex (by rw [hlit.tokens, nil_append, hv])

end Lib.Go
