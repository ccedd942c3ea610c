import UnionVoyager.Gno.Program
import UnionVoyager.Lib.GoSyntax

/-!
# How Go reads the programs

* `Template.program` — the program a template is meant to be.
* `reads_render` — **the text has the tokens of that program if the strings spliced into it are
  plain**, and if the literals in it denote these strings, they are plain.
-/

namespace UnionVoyager.Gno

open Lib.Go List

/-! ## The programs -/

def core (name : String) : Name := ⟨some "core".toList, name.toList⟩

def byte : Typ := .named ⟨none, "byte".toList⟩

def convExpr (type : Conversion) (n : Nat) : Expr := .call (core type.text) (.last (.int n))

/-- Every element with a comma behind it. -/
def byteArgs : List UInt8 → Args
  | [] => .nil
  | b :: bz => .cons (.int b.toNat) (byteArgs bz)

def bytesExpr (bz : List UInt8) : Expr := .slice byte (byteArgs bz)

def packetExpr (packet : Packet) : Expr :=
  .struct (core "Packet")
    (.cons "SourceChannelId".toList (convExpr .channelId packet.source_channel_id)
    (.cons "DestinationChannelId".toList (convExpr .channelId packet.destination_channel_id)
    (.cons "Data".toList (bytesExpr packet.data)
    (.cons "TimeoutHeight".toList (convExpr .height 0)
    (.last "TimeoutTimestamp".toList (convExpr .timestamp packet.timeout_timestamp))))))

/-- Elements with commas between them. -/
def separated : List Expr → Args
  | [] => .nil
  | [e] => .last e
  | e :: es => .cons e (separated es)

def Splice.expr : Splice → Expr
  | num n => .int n
  | conv type n => convExpr type n
  | bytes bz => bytesExpr bz
  | blobs bzs => .slice (.slice byte) (separated (bzs.map bytesExpr))
  | packets ps => .slice (.named (core "Packet")) (separated (ps.map packetExpr))

def Field.key : Field → List Char
  | value key _ => key.toList
  | text key _ => key.toList

def Field.expr : Field → Expr
  | value _ v => v.expr
  | text _ s => .str (utf8 s.toList)

def fieldsOf : List Field → Fields
  | [] => .nil
  | f :: fs => .cons f.key f.expr (fieldsOf fs)

def linesOf : List Line → Fields
  | [] => .nil
  | .field f :: ls => .cons f.key f.expr (linesOf ls)
  | .nested key type fields :: ls => .cons key.toList (.struct (core type) (fieldsOf fields)) (linesOf ls)
  | .comment _ _ _ :: ls => linesOf ls

def Template.literal (t : Template) : Expr := .struct (core ("Msg" ++ t.function)) (linesOf t.lines)

/-- The call of a function of the core realm across realms. -/
def coreCall (function : String) (msg : Expr) : Expr :=
  .call (core function) (.cons (.name ⟨none, "cross".toList⟩) (.last msg))

/-- A call, the result of which may get a name and be printed. -/
def mainBody (result? : Option (List Char)) (call : Expr) : List Stmt :=
  match result? with
  | some name => [.define name call, .expr (.call ⟨none, "println".toList⟩ (.last (.name ⟨none, name⟩)))]
  | none => [.expr call]

/-- A program that imports the core realm and only has a main function. -/
def mainProgram (ibc_core_realm : String) (body : List Stmt) : Program where
  package := "main".toList
  imports := [⟨"core".toList, utf8 ibc_core_realm.toList⟩]
  funcs := [⟨"main".toList, body⟩]

def Template.program (ibc_core_realm : String) (t : Template) : Program :=
  mainProgram ibc_core_realm (mainBody (t.result?.map String.toList) (coreCall t.function t.literal))

/-! ## Their values -/

/-- The types of the core realm to which numbers are converted. -/
def conversion (name : Name) : Bool :=
  name ∈ [core "ClientId", core "ConnectionId", core "ChannelId", core "Height", core "Timestamp"]

def bytesValue (bz : List UInt8) : Value := .slice byte (bz.map fun b => .num b.toNat)

def packetValue (packet : Packet) : Value :=
  .struct (core "Packet") [
    ("SourceChannelId".toList, .num packet.source_channel_id),
    ("DestinationChannelId".toList, .num packet.destination_channel_id),
    ("Data".toList, bytesValue packet.data),
    ("TimeoutHeight".toList, .num 0),
    ("TimeoutTimestamp".toList, .num packet.timeout_timestamp)]

def stringValue (s : String) : Value := .str (utf8 s.toList)

def Splice.denoted : Splice → Value
  | num n => .num n
  | conv _ n => .num n
  | bytes bz => bytesValue bz
  | blobs bzs => .slice (.slice byte) (bzs.map bytesValue)
  | packets ps => .slice (.named (core "Packet")) (ps.map packetValue)

def Field.denoted : Field → List Char × Value
  | value key v => (key.toList, v.denoted)
  | text key s => (key.toList, stringValue s)

def Line.denoted : Line → List (List Char × Value)
  | field f => [f.denoted]
  | nested key type fields => [(key.toList, .struct (core type) (fields.map Field.denoted))]
  | comment _ _ _ => []

theorem denote_conv (type : Conversion) (n : Nat) : (convExpr type n).denote conversion = some (.num n) := by
  have htype : conversion (core type.text) = true := by
    cases type <;> decide
  simp only [convExpr, Expr.denote, htype]

theorem denote_bytes (bz : List UInt8) : (bytesExpr bz).denote conversion = some (bytesValue bz) := by
  have hargs : (byteArgs bz).denote conversion = some (bz.map fun b => .num b.toNat) := by
    induction bz with
    | nil => rfl
    | cons b bz ih =>
      rw [byteArgs, Args.denote, ih]
      rfl
  rw [bytesExpr, Expr.denote, hargs]
  rfl

theorem denote_packet (packet : Packet) : (packetExpr packet).denote conversion = some
    (packetValue packet) := by
  simp only [packetExpr, Expr.denote, Fields.denote, denote_conv, denote_bytes]
  rfl

theorem denote_separated {α : Type} {f : α → Expr} {g : α → Value}
    (h : ∀ a, (f a).denote conversion = some (g a))
    (as : List α) : (separated (as.map f)).denote conversion = some (as.map g) := by
  induction as with
  | nil => rfl
  | cons a as ih =>
    cases as with
    | nil =>
      show (Args.last (f a)).denote conversion = _
      rw [Args.denote, h]
      rfl
    | cons b as =>
      show (Args.cons (f a) (separated ((b :: as).map f))).denote conversion = _
      rw [Args.denote, h, ih]
      rfl

theorem Splice.denote_expr (v : Splice) : v.expr.denote conversion = some v.denoted := by
  cases v with
  | num n => rfl
  | conv type n => exact denote_conv type n
  | bytes bz => exact denote_bytes bz
  | blobs bzs =>
    rw [expr, Expr.denote, denote_separated denote_bytes]
    rfl
  | packets ps =>
    rw [expr, Expr.denote, denote_separated denote_packet]
    rfl

theorem Field.denote_expr (f : Field) : f.expr.denote conversion = some f.denoted.2 := by
  cases f with
  | value key v => exact v.denote_expr
  | text key s => rfl

theorem Field.key_denoted (f : Field) : f.denoted.1 = f.key := by
  cases f <;> rfl

theorem denote_fieldsOf (fs : List Field) : (fieldsOf fs).denote conversion = some
    (fs.map Field.denoted) := by
  induction fs with
  | nil => rfl
  | cons f fs ih =>
    rw [fieldsOf, Fields.denote, ih, f.denote_expr, ← f.key_denoted]
    rfl

theorem denote_linesOf (ls : List Line) : (linesOf ls).denote conversion = some
    (ls.flatMap Line.denoted) := by
  induction ls with
  | nil => rfl
  | cons l ls ih =>
    cases l with
    | field f =>
      rw [linesOf, Fields.denote, ih, f.denote_expr, ← f.key_denoted]
      rfl
    | nested key type fields =>
      rw [linesOf, Fields.denote, ih, Expr.denote, denote_fieldsOf]
      rfl
    | comment label line relayer => exact ih

def Template.denoted (t : Template) : Value := .struct (core ("Msg" ++ t.function))
    (t.lines.flatMap Line.denoted)

theorem Template.denote_literal (t : Template) : t.literal.denote conversion = some t.denoted := by
  rw [literal, Expr.denote, denote_linesOf]
  rfl

/-! ## Their tokens in the text -/

theorem lexes_core : Lexes (.gap false) "core.".toList (.gap false)
    [.ident "core".toList, .punct '.'] := ⟨rfl, rfl⟩

theorem Conversion.isName_text (type : Conversion) : isName type.text.toList = true := by
  cases type <;> decide

theorem lexes_conv (type : Conversion) (n : Nat) :
    Lexes (.gap false) ("core." ++ type.text ++ "(" ++ toString n ++ ")").toList (.gap true)
      (convExpr type n).tokens := by
  have hopen : Lexes (.gap true) ['('] (.gap false) [.punct '('] := ⟨rfl, rfl⟩
  have hclose : Lexes (.gap true) [')'] (.gap true) [.punct ')'] := ⟨rfl, rfl⟩
  have hargs := (spells_int n).append (by decide) hclose
  have hname := (spells_name type.isName_text).append (by decide) hopen
  have hall := lexes_core.append (hname.append hargs)
  have hparens : "(".toList = ['('] ∧ ")".toList = [')'] := ⟨rfl, rfl⟩
  simpa only [convExpr, core, Expr.tokens, Name.tokens, Args.tokens, hparens.1, hparens.2,
    String.toList_append, append_assoc, cons_append, nil_append] using hall

theorem lexes_bytes (bz : List UInt8) : Lexes (.gap false) (gno_bytes bz).toList (.gap true)
    (bytesExpr bz).tokens := by
  have helems : Lexes (.gap false) (bz.flatMap fun b => (toString b.toNat ++ ", ").toList) (.gap false)
      (byteArgs bz).tokens := by
    induction bz with
    | nil => exact lexes_nil _
    | cons b bz ih =>
      have hcomma : Lexes (.gap true) [',', ' '] (.gap false) [.punct ','] := ⟨rfl, rfl⟩
      have hall := ((spells_int b.toNat).append (by decide) hcomma).append ih
      simpa [byteArgs, Args.tokens, Expr.tokens] using hall
  have hopen : Lexes (.gap false) "[]byte\x7b".toList (.gap false)
      [.punct '[', .punct ']', .ident "byte".toList, .punct '{'] := ⟨rfl, rfl⟩
  have hclose : Lexes (.gap false) ['}'] (.gap true) [.punct '}'] := ⟨rfl, rfl⟩
  have hall := hopen.append (helems.append hclose)
  have hbrace : "\x7d".toList = ['}'] := rfl
  unfold gno_bytes
  simpa only [bytesExpr, byte, Expr.tokens, Typ.tokens, Name.tokens, hbrace, String.toList_append,
    String.toList_join, flatMap_map, append_assoc, cons_append, nil_append] using hall

theorem lexes_packet (packet : Packet) :
    Lexes (.gap false) (gno_packet packet).toList (.gap true) (packetExpr packet).tokens := by
  have hfirst : Lexes (.gap false) "core.Packet\x7b SourceChannelId: core.ChannelId(".toList (.gap false)
      ((core "Packet").tokens ++ .punct '{' :: .ident "SourceChannelId".toList :: .punct ':' ::
        ((core "ChannelId").tokens ++ [.punct '('])) := by decide +kernel
  have hsecond : Lexes (.gap true) "), DestinationChannelId: core.ChannelId(".toList (.gap false)
      (.punct ')' :: .punct ',' :: .ident "DestinationChannelId".toList :: .punct ':' ::
        ((core "ChannelId").tokens ++ [.punct '('])) := by decide +kernel
  have hdata : Lexes (.gap true) "), Data: ".toList (.gap false)
      [.punct ')', .punct ',', .ident "Data".toList, .punct ':'] := by decide
  have htimeout : Lexes (.gap true)
      ", TimeoutHeight: core.Height(0), TimeoutTimestamp: core.Timestamp(".toList (.gap false)
      (.punct ',' :: .ident "TimeoutHeight".toList :: .punct ':' :: ((convExpr .height 0).tokens ++
        .punct ',' :: .ident "TimeoutTimestamp".toList :: .punct ':' :: ((core "Timestamp").tokens ++
        [.punct '(']))) := by decide +kernel
  have hclose : Lexes (.gap true) ") \x7d".toList (.gap true) [.punct ')', .punct '}'] := by decide +kernel
  have hsource := hfirst.append ((spells_int packet.source_channel_id).append (by decide) hsecond)
  have hdest := (spells_int packet.destination_channel_id).append (by decide) hdata
  have hstamp := htimeout.append ((spells_int packet.timeout_timestamp).append (by decide) hclose)
  have hall := hsource.append (hdest.append ((lexes_bytes packet.data).append hstamp))
  unfold gno_packet
  simpa only [packetExpr, convExpr, Conversion.text, String.toList_append, Expr.tokens,
    Fields.tokens, Args.tokens, append_assoc, cons_append, nil_append] using hall

theorem lexes_separated {α : Type} {f : α → String} {g : α → Expr}
    (h : ∀ a, Lexes (.gap false) (f a).toList (.gap true) (g a).tokens) (as : List α) :
    Lexes (.gap false) (",".intercalate (as.map f) ++ " \x7d").toList (.gap true)
      ((separated (as.map g)).tokens ++ [.punct '}']) := by
  have hclose : ∀ semi, Lexes (.gap semi) " \x7d".toList (.gap true) [.punct '}'] := by decide
  induction as with
  | nil => exact hclose false
  | cons a as ih =>
    cases as with
    | nil =>
      have hall := (h a).append (hclose true)
      rwa [← String.toList_append, ← String.intercalate_singleton (t := f a) (s := ",")] at hall
    | cons b as =>
      have hcomma : Lexes (.gap true) ",".toList (.gap false) [.punct ','] := ⟨rfl, rfl⟩
      have hall := (h a).append (hcomma.append ih)
      simp only [map_cons, String.intercalate_cons_cons, String.toList_append, append_assoc, separated,
        Args.tokens, cons_append, nil_append] at hall ⊢
      exact hall

theorem Splice.spells_render (v : Splice) : Spells v.render.toList v.expr.tokens := by
  cases v with
  | num n => exact spells_int n
  | conv type n => exact spells_of_lexes (lexes_conv type n)
  | bytes bz => exact spells_of_lexes (lexes_bytes bz)
  | blobs bzs =>
    have hopen : Lexes (.gap false) "[][]byte\x7b ".toList (.gap false)
        (.punct '[' :: .punct ']' :: ((Typ.slice byte).tokens ++ [.punct '{'])) := by decide
    have hall := hopen.append (lexes_separated lexes_bytes bzs)
    apply spells_of_lexes
    show Lexes _ ("[][]byte\x7b " ++ ",".intercalate (bzs.map gno_bytes) ++ " \x7d").toList _ _
    simpa only [expr, Expr.tokens, String.toList_append, append_assoc, cons_append, nil_append]
      using hall
  | packets ps =>
    have hopen : Lexes (.gap false) "[]core.Packet\x7b ".toList (.gap false)
        (.punct '[' :: .punct ']' :: ((Typ.named (core "Packet")).tokens ++ [.punct '{'])) := by decide
    have hall := hopen.append (lexes_separated lexes_packet ps)
    apply spells_of_lexes
    show Lexes _ ("[]core.Packet\x7b " ++ ",".intercalate (ps.map gno_packet) ++ " \x7d").toList _ _
    simpa only [expr, Expr.tokens, String.toList_append, append_assoc, cons_append, nil_append]
      using hall

/-! ## Lines with spliced strings -/

theorem stringsOfElems_map {α : Type} {f : α → Value} (h : ∀ a, (f a).strings = []) (as : List α) :
    stringsOfElems (as.map f) = [] := by
  induction as with
  | nil => rfl
  | cons a as ih =>
    rw [map_cons, stringsOfElems, h, ih]
    rfl

theorem strings_bytesValue (bz : List UInt8) : (bytesValue bz).strings = [] :=
    stringsOfElems_map (fun _ => rfl) bz

theorem strings_packetValue (packet : Packet) : (packetValue packet).strings = [] := by
  simp [packetValue, Value.strings, stringsOfFields, strings_bytesValue]

theorem Splice.strings_expr (v : Splice) : strings v.expr.tokens = [] := by
  rw [Expr.strings_of_denote v.denote_expr]
  cases v with
  | num | conv => rfl
  | bytes bz => exact strings_bytesValue bz
  | blobs bzs => exact stringsOfElems_map strings_bytesValue bzs
  | packets ps => exact stringsOfElems_map strings_packetValue ps

/-- The strings spliced in between quotes. -/
def Field.strings : Field → List (List Char)
  | value _ _ => []
  | text _ s => [s.toList]

def Line.strings : Line → List (List Char)
  | field f => f.strings
  | nested _ _ fields => fields.flatMap Field.strings
  | comment _ _ _ => []

def Template.strings (t : Template) : List (List Char) := t.lines.flatMap Line.strings

def Field.tokens (f : Field) : List Token := .ident f.key :: .punct ':' :: (f.expr.tokens ++ [.punct ','])

theorem tokens_fieldsOf (fs : List Field) : (fieldsOf fs).tokens = fs.flatMap Field.tokens := by
  induction fs with
  | nil => rfl
  | cons f fs ih =>
    rw [fieldsOf, Fields.tokens, ih, flatMap_cons, Field.tokens]
    simp only [cons_append, append_assoc, nil_append]

theorem Field.reads_render {indent : String}
    (hindent : Lexes (.gap false) indent.toList (.gap false) []) (f : Field)
    (hkey : isName f.key = true) :
    Reads (.gap false) (f.render indent).toList (.gap false) f.tokens f.strings := by
  have hcolon : Lexes (.gap true) ": ".toList (.gap false) [.punct ':'] := by decide
  have hfront := hindent.append ((spells_name hkey).append (by decide) hcolon)
  cases f with
  | value key v =>
    have hcomma : Lexes (.gap true) ",\n".toList (.gap false) [.punct ','] := by decide
    have hall := hfront.append (v.spells_render.append (by decide) hcomma)
    have hlex : Lexes (.gap false) ((value key v).render indent).toList (.gap false)
        (value key v).tokens := by
      simpa only [render, tokens, expr, Field.key, String.toList_append, append_assoc, nil_append,
        cons_append] using hall
    have hnone : Lib.Go.strings (value key v).tokens = [] := by
      simp [tokens, expr, v.strings_expr]
    exact reads_of_lexes hlex hnone
  | text key s =>
    have hcomma : Lexes (.gap true) ([','] ++ ['\n']) (.gap false) [.punct ','] := by decide
    have hquoted : Reads (.gap false) ('"' :: (s.toList ++ '"' :: ([','] ++ ['\n']))) (.gap false)
        (.str (utf8 s.toList) :: [.punct ',']) [s.toList] := reads_quoted (by decide) hcomma rfl
    have hall := (reads_of_lexes hfront rfl).append hquoted
    have hopen : ": \"".toList = ": ".toList ++ ['"'] := rfl
    have hclose : "\",\n".toList = '"' :: ([','] ++ ['\n']) := rfl
    simpa only [render, tokens, expr, Field.key, Field.strings, Expr.tokens, hopen, hclose,
      String.toList_append, List.append_assoc, List.nil_append, List.cons_append] using hall

theorem Field.reads_all {indent : String}
    (hindent : Lexes (.gap false) indent.toList (.gap false) []) (fs : List Field)
    (hkeys : ∀ f ∈ fs, isName f.key = true) :
    Reads (.gap false) (String.join (fs.map (Field.render indent))).toList (.gap false)
      (fs.flatMap Field.tokens) (fs.flatMap Field.strings) := by
  induction fs with
  | nil => exact reads_of_lexes (lexes_nil _) rfl
  | cons f fs ih =>
    rw [List.forall_mem_cons] at hkeys
    rw [List.map_cons, String.join_cons, String.toList_append, List.flatMap_cons, List.flatMap_cons]
    exact (f.reads_render hindent hkeys.1).append (ih hkeys.2)

def Line.tokens : Line → List Token
  | field f => f.tokens
  | nested key type fields =>
    .ident key.toList :: .punct ':' :: ((core type).tokens ++ .punct '{' :: (fields.flatMap Field.tokens ++
      [.punct '}', .punct ',']))
  | comment _ _ _ => []

theorem tokens_linesOf (ls : List Line) : (linesOf ls).tokens = ls.flatMap Line.tokens := by
  induction ls with
  | nil => rfl
  | cons l ls ih =>
    cases l with
    | field f =>
      rw [linesOf, Fields.tokens, ih, List.flatMap_cons, Line.tokens, Field.tokens]
      simp only [List.cons_append, List.append_assoc, List.nil_append]
    | nested key type fields =>
      rw [linesOf, Fields.tokens, ih, List.flatMap_cons, Line.tokens, Expr.tokens, tokens_fieldsOf]
      simp only [List.cons_append, List.append_assoc, List.nil_append]
    | comment label line relayer => exact ih

theorem Bech32.isComment_text (address : Bech32) : isComment address.text.toList = true := by
  rw [isComment, List.all_eq_true]
  intro c hc
  obtain ⟨hlow, hhigh⟩ := address.printable c hc
  have hline : c ≠ '\n' := by
    rintro rfl
    exact absurd hlow (by decide)
  have href : refused c = false := by
    rw [refused, Bool.or_eq_false_iff, beq_eq_false_iff_ne, beq_eq_false_iff_ne]
    refine ⟨?_, ?_⟩
    · rintro rfl
      exact absurd hlow (by decide)
    · rintro rfl
      exact absurd hhigh (by decide)
  simp [hline, href]

theorem lexes_comment_line {label : String} (hlabel : isComment label.toList = true) (relayer : Bech32) :
    Lexes (.gap false) ("    \t//" ++ label ++ relayer.text ++ ",\n").toList (.gap false) [] := by
  have hopen : Lexes (.gap false) "    \t//".toList (.comment false) [] := by decide
  have hclose : Lexes (.comment false) ",\n".toList (.gap false) [] := by decide
  have htext := (lexes_comment hlabel false).append
    ((lexes_comment relayer.isComment_text false).append hclose)
  simpa only [String.toList_append, List.append_assoc, List.nil_append] using hopen.append htext

theorem Field.isName_key {f : Field} (h : ∀ name ∈ f.names, isName name.toList = true) :
    isName f.key = true := by
  cases f with
  | value key v => exact h key List.mem_cons_self
  | text key s => exact h key List.mem_cons_self

theorem Line.reads_render (l : Line) (hnames : ∀ name ∈ l.names, isName name.toList = true) :
    Reads (.gap false) l.render.toList (.gap false) l.tokens l.strings := by
  have houter : Lexes (.gap false) "    \t".toList (.gap false) [] := by decide
  cases l with
  | field f => exact f.reads_render houter (Field.isName_key hnames)
  | nested key type fields =>
    have hinner : Lexes (.gap false) "        \t".toList (.gap false) [] := by decide
    have hcolon : Lexes (.gap true) ": core.".toList (.gap false)
        [.punct ':', .ident "core".toList, .punct '.'] := by decide
    have hopen : Lexes (.gap true) "\x7b\n".toList (.gap false) [.punct '{'] := by decide
    have hclose : Lexes (.gap false) "    \t\x7d,\n".toList (.gap false) [.punct '}', .punct ','] := by decide
    have hkey : isName key.toList = true := hnames _ List.mem_cons_self
    have htype : isName type.toList = true := hnames _ (List.mem_cons_of_mem _ List.mem_cons_self)
    have hfields : ∀ f ∈ fields, isName f.key = true := by
      intro f hf
      apply Field.isName_key
      intro name hname
      exact hnames name (List.mem_cons_of_mem _ (List.mem_cons_of_mem _ (List.mem_flatMap_of_mem hf hname)))
    have hfront := (houter.append ((spells_name hkey).append (by decide) hcolon)).append
      ((spells_name htype).append (by decide) hopen)
    have hall := ((reads_of_lexes hfront rfl).append (Field.reads_all hinner fields hfields)).append
      (reads_of_lexes hclose rfl)
    simpa only [render, tokens, Line.strings, core, Name.tokens, String.toList_append, List.append_assoc,
      List.nil_append, List.cons_append, List.append_nil] using hall
  | comment label line relayer => exact reads_of_lexes (lexes_comment_line line relayer) rfl

theorem Line.reads_all (ls : List Line) (hnames : ∀ name ∈ ls.flatMap Line.names, isName name.toList = true) :
    Reads (.gap false) (String.join (ls.map Line.render)).toList (.gap false) (ls.flatMap Line.tokens)
      (ls.flatMap Line.strings) := by
  induction ls with
  | nil => exact reads_of_lexes (lexes_nil _) rfl
  | cons l ls ih =>
    rw [List.flatMap_cons, List.forall_mem_append] at hnames
    rw [List.map_cons, String.join_cons, String.toList_append, List.flatMap_cons, List.flatMap_cons]
    exact (l.reads_render hnames.1).append (ih hnames.2)

/-! ## Templates -/

theorem isName_msg {name : String} (h : isName name.toList = true) :
    isName ("Msg" ++ name).toList = true := by
  have hkey : ∀ word ∈ keywords, word.head? ≠ some 'M' := by decide
  rw [String.toList_append]
  cases hcs : name.toList with
  | nil =>
    rw [hcs] at h
    cases h
  | cons c cs =>
    simp only [hcs, isName, Bool.and_eq_true, decide_eq_true_eq] at h
    have hall : ("sg".toList ++ c :: cs).all (fun c => isLetter c || c.isDigit) = true := by
      rw [List.all_append, List.all_cons, h.1.1, h.1.2]
      rfl
    have hword : 'M' :: ("sg".toList ++ c :: cs) ∉ keywords := fun hmem => hkey _ hmem rfl
    show (isLetter 'M' && ("sg".toList ++ c :: cs).all _ && decide
      ('M' :: ("sg".toList ++ c :: cs) ∉ keywords)) = true
    rw [hall, decide_eq_true hword]
    rfl

theorem Template.isName_names (t : Template) :
    (∀ name ∈ t.result?, isName name.toList = true) ∧ isName t.function.toList = true ∧
      ∀ name ∈ t.lines.flatMap Line.names, isName name.toList = true := by
  have hall := t.named
  rw [List.all_eq_true, List.forall_mem_append, List.forall_mem_cons] at hall
  refine ⟨?_, hall.2.1, hall.2.2⟩
  intro name hname
  exact hall.1 name (Option.mem_toList.mpr hname)

theorem reads_import (ibc_core_realm : String) :
    Reads (.gap false) ("\npackage main\n\nimport (\n    core \"" ++ ibc_core_realm ++
      "\"\n)\n\nfunc main() \x7b\n\t").toList (.gap false)
      [.keyword "package".toList, .ident "main".toList, .punct ';', .keyword "import".toList, .punct '(',
        .ident "core".toList, .str (utf8 ibc_core_realm.toList), .punct ';', .punct ')', .punct ';',
        .keyword "func".toList, .ident "main".toList, .punct '(', .punct ')', .punct '{']
          [ibc_core_realm.toList] := by
  have hfirst : Lexes (.gap false) "\npackage main\n\nimport (\n    core ".toList (.gap true)
      [.keyword "package".toList, .ident "main".toList, .punct ';', .keyword "import".toList, .punct '(',
        .ident "core".toList] := by decide
  have hline : Lexes (.gap true) ([] ++ ['\n']) (.gap false) [.punct ';'] := by decide
  have hmain : Lexes (.gap false) ")\n\nfunc main() \x7b\n\t".toList (.gap false)
      [.punct ')', .punct ';', .keyword "func".toList, .ident "main".toList, .punct '(', .punct ')',
        .punct '{'] := by
    decide
  have hquoted : Reads (.gap true) ('"' :: (ibc_core_realm.toList ++ '"' :: ([] ++ ['\n']))) (.gap false)
      (.str (utf8 ibc_core_realm.toList) :: [.punct ';']) [ibc_core_realm.toList] :=
    reads_quoted (by decide) hline rfl
  have hall := (reads_of_lexes hfirst rfl).append (hquoted.append (reads_of_lexes hmain rfl))
  have hopen : "\npackage main\n\nimport (\n    core \"".toList =
      "\npackage main\n\nimport (\n    core ".toList ++ ['"'] := by decide
  have hclose : "\"\n)\n\nfunc main() \x7b\n\t".toList = '"' ::
      ([] ++ ['\n'] ++ ")\n\nfunc main() \x7b\n\t".toList) := by
    decide
  simpa only [hopen, hclose, String.toList_append, List.append_assoc, List.nil_append,
    List.cons_append] using hall

theorem Template.lexes_define (t : Template) : Lexes (.gap false) t.define.toList (.gap false)
      (match t.result? with
      | some name => [.ident name.toList, .define]
      | none => []) := by
  have hnames := t.isName_names.1
  unfold define
  cases h : t.result? with
  | none => exact lexes_nil _
  | some name =>
    have hassign : Lexes (.gap true) " := ".toList (.gap false) [.define] := by decide
    rw [String.toList_append]
    exact (spells_name (hnames name h)).append (by decide) hassign

theorem Template.lexes_print (t : Template) : Lexes (.gap false) t.print.toList (.gap false)
      (match t.result? with
      | some name => [.ident "println".toList, .punct '(', .ident name.toList, .punct ')', .punct ';']
      | none => []) := by
  have hnames := t.isName_names.1
  unfold print
  cases h : t.result? with
  | none => exact lexes_nil _
  | some name =>
    have hopen : Lexes (.gap false) "\tprintln(".toList (.gap false)
      [.ident "println".toList, .punct '('] := by decide
    have hclose : Lexes (.gap true) ")\n".toList (.gap false) [.punct ')', .punct ';'] := by decide
    rw [String.toList_append, String.toList_append, List.append_assoc]
    exact hopen.append ((spells_name (hnames name h)).append (by decide) hclose)

theorem Template.lexes_call (t : Template) :
    Lexes (.gap false) ("core." ++ t.function ++ "(cross, core.Msg" ++ t.function ++
      "\x7b\n").toList (.gap false)
      ((core t.function).tokens ++ .punct '(' :: .ident "cross".toList :: .punct ',' ::
        ((core ("Msg" ++ t.function)).tokens ++ [.punct '{'])) := by
  have hfunction := t.isName_names.2.1
  have hcross : Lexes (.gap true) "(cross, core.".toList (.gap false)
      [.punct '(', .ident "cross".toList, .punct ',', .ident "core".toList, .punct '.'] := by decide
  have hbrace : Lexes (.gap true) "\x7b\n".toList (.gap false) [.punct '{'] := by decide
  have hmsg := (spells_name (isName_msg hfunction)).append (by decide) hbrace
  have hall := lexes_core.append (((spells_name hfunction).append (by decide) hcross).append hmsg)
  have hsplit : "(cross, core.Msg".toList = "(cross, core.".toList ++ "Msg".toList := rfl
  simpa only [core, Name.tokens, hsplit, String.toList_append, List.append_assoc, List.nil_append,
    List.cons_append] using hall

theorem tokens_main (ibc_core_realm : String) (t : Template) : (t.program ibc_core_realm).tokens =
      [.keyword "package".toList, .ident "main".toList, .punct ';', .keyword "import".toList, .punct '(',
        .ident "core".toList, .str (utf8 ibc_core_realm.toList), .punct ';', .punct ')', .punct ';',
        .keyword "func".toList, .ident "main".toList, .punct '(', .punct ')', .punct '{'] ++
      ((match t.result? with
        | some name => [.ident name.toList, .define]
        | none => []) ++
      ((core t.function).tokens ++ .punct '(' :: .ident "cross".toList :: .punct ',' ::
        ((core ("Msg" ++ t.function)).tokens ++ [.punct '{'])) ++
      (t.lines.flatMap Line.tokens ++ ([.punct '}', .punct ')', .punct ';'] ++
      ((match t.result? with
        | some name => [.ident "println".toList, .punct '(', .ident name.toList, .punct ')', .punct ';']
        | none => []) ++ [.punct '}', .punct ';'])))) := by
  cases h : t.result? with
  | none =>
    simp only [Template.program, h, Option.map_none, mainBody, mainProgram, Program.tokens,
      Import.tokens, Func.tokens,
      Stmt.tokens, coreCall, Template.literal, Expr.tokens, Args.tokens, Name.tokens,
        tokens_linesOf, List.flatMap_cons,
      List.flatMap_nil, List.append_assoc, List.cons_append, List.nil_append, List.append_nil]
  | some name =>
    simp only [Template.program, h, Option.map_some, mainBody, mainProgram, Program.tokens,
      Import.tokens, Func.tokens,
      Stmt.tokens, coreCall, Template.literal, Expr.tokens, Args.tokens, Name.tokens,
        tokens_linesOf, List.flatMap_cons,
      List.flatMap_nil, List.append_assoc, List.cons_append, List.nil_append, List.append_nil]

theorem reads_render (ibc_core_realm : String) (t : Template) :
    Reads (.gap false) (t.render ibc_core_realm).toList (.gap false) (t.program ibc_core_realm).tokens
      (ibc_core_realm.toList :: t.strings) := by
  have hclose : Lexes (.gap false) "\t\x7d)\n".toList (.gap false)
    [.punct '}', .punct ')', .punct ';'] := by decide
  have hend : Lexes (.gap false) "\x7d\n                    ".toList (.gap false)
      [.punct '}', .punct ';'] := by
    decide
  have hcall := reads_of_lexes (t.lexes_define.append t.lexes_call) (by cases t.result? <;> rfl)
  have hback := reads_of_lexes (hclose.append (t.lexes_print.append hend)) (by cases t.result? <;> rfl)
  have hlines := Line.reads_all t.lines t.isName_names.2.2
  have hall := (reads_import ibc_core_realm).append (hcall.append (hlines.append hback))
  rw [tokens_main]
  unfold Template.render
  simpa only [Template.strings, String.toList_append, append_assoc, nil_append, cons_append,
    append_nil] using hall

end UnionVoyager.Gno
