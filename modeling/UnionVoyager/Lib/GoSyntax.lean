import UnionVoyager.Lib.GoTokens

/-!
# Programs of Go

The part of the Go grammar with calls, conversions and composite literals, as trees with the tokens
they are written with.  A comma behind the last element of a list is part of the tree.

* `Expr`, `Stmt`, `Program` — the trees.
* `Program.tokens_injective` — **the tokens of a program are those of no other program**.
* `Expr.strings_of_denote` — an expression that denotes a value has the strings of the value.
-/

namespace Lib.Go

open List

/-- A name, of another package if it is qualified. -/
structure Name where
  package? : Option (List Char)
  name : List Char
  deriving DecidableEq

inductive Typ where
  | named (name : Name)
  | slice (elem : Typ)
  deriving DecidableEq

mutual
inductive Expr where
  | int (n : Nat)
  | str (bytes : List UInt8)
  | name (name : Name)
  | call (function : Name) (args : Args)
  | slice (elem : Typ) (elems : Args)
  | struct (type : Name) (fields : Fields)
  deriving DecidableEq
inductive Args where
  | nil
  | last (e : Expr)
  | cons (e : Expr) (rest : Args)
  deriving DecidableEq
inductive Fields where
  | nil
  | last (key : List Char) (e : Expr)
  | cons (key : List Char) (e : Expr) (rest : Fields)
  deriving DecidableEq
end

inductive Stmt where
  | expr (e : Expr)
  | define (name : List Char) (e : Expr)
  deriving DecidableEq

/-- A function without parameters and results. -/
structure Func where
  name : List Char
  body : List Stmt
  deriving DecidableEq

structure Import where
  name : List Char
  path : List UInt8
  deriving DecidableEq

structure Program where
  package : List Char
  imports : List Import
  funcs : List Func
  deriving DecidableEq

/-! ## Their tokens -/

def Name.tokens : Name → List Token
  | ⟨none, name⟩ => [.ident name]
  | ⟨some package, name⟩ => [.ident package, .punct '.', .ident name]

def Typ.tokens : Typ → List Token
  | .named name => name.tokens
  | .slice elem => .punct '[' :: .punct ']' :: elem.tokens

mutual
def Expr.tokens : Expr → List Token
  | .int n => [.int n]
  | .str bytes => [.str bytes]
  | .name name => name.tokens
  | .call function args => function.tokens ++ .punct '(' :: (args.tokens ++ [.punct ')'])
  | .slice elem elems => .punct '[' :: .punct ']' ::
      (elem.tokens ++ .punct '{' :: (elems.tokens ++ [.punct '}']))
  | .struct type fields => type.tokens ++ .punct '{' :: (fields.tokens ++ [.punct '}'])
def Args.tokens : Args → List Token
  | .nil => []
  | .last e => e.tokens
  | .cons e rest => e.tokens ++ .punct ',' :: rest.tokens
def Fields.tokens : Fields → List Token
  | .nil => []
  | .last key e => .ident key :: .punct ':' :: e.tokens
  | .cons key e rest => .ident key :: .punct ':' :: (e.tokens ++ .punct ',' :: rest.tokens)
end

def Stmt.tokens : Stmt → List Token
  | .expr e => e.tokens ++ [.punct ';']
  | .define name e => .ident name :: .define :: (e.tokens ++ [.punct ';'])

def Func.tokens (f : Func) : List Token :=
  .keyword "func".toList :: .ident f.name :: .punct '(' :: .punct ')' :: .punct '{' ::
    (f.body.flatMap Stmt.tokens ++ [.punct '}', .punct ';'])

def Import.tokens (i : Import) : List Token := [.ident i.name, .str i.path, .punct ';']

def Program.tokens (p : Program) : List Token :=
  .keyword "package".toList :: .ident p.package :: .punct ';' :: .keyword "import".toList :: .punct '(' ::
    (p.imports.flatMap Import.tokens ++ .punct ')' :: .punct ';' :: p.funcs.flatMap Func.tokens)

/-! ## Reading them back -/

def parseName : List Token → Option (Name × List Token)
  | .ident package :: .punct '.' :: .ident name :: rest => some (⟨some package, name⟩, rest)
  | .ident name :: rest => some (⟨none, name⟩, rest)
  | _ => none

def parseType : List Token → Option (Typ × List Token)
  | .punct '[' :: .punct ']' :: rest => (parseType rest).map fun (elem, rest) => (.slice elem, rest)
  | ts => (parseName ts).map fun (name, rest) => (.named name, rest)

mutual
/-- `fuel` bounds the depth of the tree. -/
def parseExpr : Nat → List Token → Option (Expr × List Token)
  | 0, _ => none
  | _ + 1, .int n :: rest => some (.int n, rest)
  | _ + 1, .str bytes :: rest => some (.str bytes, rest)
  | fuel + 1, .punct '[' :: .punct ']' :: rest => do
    let (elem, rest) ← parseType rest
    match rest with
    | .punct '{' :: rest => (parseArgs fuel (.punct '}') rest).map fun (elems, rest) =>
        (.slice elem elems, rest)
    | _ => none
  | fuel + 1, ts => do
    let (name, rest) ← parseName ts
    match rest with
    | .punct '(' :: rest => (parseArgs fuel (.punct ')') rest).map fun (args, rest) => (.call name args, rest)
    | .punct '{' :: rest => (parseFields fuel rest).map fun (fields, rest) => (.struct name fields, rest)
    | rest => some (.name name, rest)
def parseArgs : Nat → Token → List Token → Option (Args × List Token)
  | 0, _, _ => none
  | fuel + 1, close, ts =>
    if ts.head? = some close then some (.nil, ts.tail)
    else do
      let (e, rest) ← parseExpr fuel ts
      match rest with
      | .punct ',' :: rest => (parseArgs fuel close rest).map fun (args, rest) => (.cons e args, rest)
      | rest => if rest.head? = some close then some (.last e, rest.tail) else none
def parseFields : Nat → List Token → Option (Fields × List Token)
  | 0, _ => none
  | _ + 1, .punct '}' :: rest => some (.nil, rest)
  | fuel + 1, .ident key :: .punct ':' :: rest => do
    let (e, rest) ← parseExpr fuel rest
    match rest with
    | .punct ',' :: rest => (parseFields fuel rest).map fun (fields, rest) => (.cons key e fields, rest)
    | .punct '}' :: rest => some (.last key e, rest)
    | _ => none
  | _ + 1, _ => none
end

attribute [local grind =] parseExpr

mutual
def Expr.depth : Expr → Nat
  | .call _ args => args.depth + 1
  | .slice _ elems => elems.depth + 1
  | .struct _ fields => fields.depth + 1
  | _ => 1
def Args.depth : Args → Nat
  | .nil => 1
  | .last e => e.depth + 1
  | .cons e rest => max e.depth rest.depth + 1
def Fields.depth : Fields → Nat
  | .nil => 1
  | .last _ e => e.depth + 1
  | .cons _ e rest => max e.depth rest.depth + 1
end

/-- What follows an expression: nothing that goes on with a name. -/
def Stops : List Token → Prop
  | .punct c :: _ => c ≠ '.' ∧ c ≠ '(' ∧ c ≠ '{'
  | _ => False

variable {rest rest' : List Token}

theorem parseName_tokens (n : Name) (h : rest.head? ≠ some (.punct '.')) :
    parseName (n.tokens ++ rest) = some (n, rest) := by
  obtain ⟨package?, name⟩ := n
  cases package? with
  | some package => rfl
  | none =>
    show parseName (.ident name :: rest) = _
    unfold parseName
    split
    · rename_i heq
      cases heq
      exact absurd rfl h
    · rename_i heq
      cases heq
      rfl
    · rename_i hno
      exact absurd rfl (hno name rest)

theorem parseType_tokens (t : Typ) (h : rest.head? ≠ some (.punct '.')) :
    parseType (t.tokens ++ rest) = some (t, rest) := by
  induction t with
  | named n =>
    have hname : parseType (n.tokens ++ rest) =
        (parseName (n.tokens ++ rest)).map fun (name, rest) => (.named name, rest) := by
      obtain ⟨package?, name⟩ := n
      cases package? <;> rfl
    rw [Typ.tokens, hname, parseName_tokens n h]
    rfl
  | slice elem ih =>
    show (parseType (elem.tokens ++ rest)).map _ = _
    rw [ih]
    rfl

theorem Name.head_tokens (n : Name) (rest : List Token) :
    ∃ name ts, n.tokens ++ rest = .ident name :: ts := by
  obtain ⟨package?, name⟩ := n
  cases package? with
  | none => exact ⟨name, rest, rfl⟩
  | some package => exact ⟨package, _, rfl⟩

variable {c : Char}

theorem Expr.head_tokens (e : Expr) (rest : List Token) (hc : c ≠ '[') :
    (e.tokens ++ rest).head? ≠ some (.punct c) := by
  cases e with
  | int | str => rintro ⟨⟩
  | name n =>
    obtain ⟨name, ts, heq⟩ := n.head_tokens rest
    rw [Expr.tokens, heq]
    rintro ⟨⟩
  | slice elem elems =>
    intro h
    cases h
    exact hc rfl
  | call n args | struct n fields =>
    rw [Expr.tokens, append_assoc]
    obtain ⟨name, ts, heq⟩ := n.head_tokens _
    rw [heq]
    rintro ⟨⟩

theorem parseExpr_name (fuel : Nat) (n : Name) (rest : List Token) :
    parseExpr (fuel + 1) (n.tokens ++ rest) = (do
      let (name, rest) ← parseName (n.tokens ++ rest)
      match rest with
      | .punct '(' :: rest => (parseArgs fuel (.punct ')') rest).map fun (args, rest) =>
          (.call name args, rest)
      | .punct '{' :: rest => (parseFields fuel rest).map fun (fields, rest) => (.struct name fields, rest)
      | rest => some (.name name, rest)) := by
  obtain ⟨name, ts, heq⟩ := n.head_tokens rest
  rw [heq]
  rfl

/-- Expressions up to a depth are read back from their tokens. -/
def ReadsExpr (fuel : Nat) : Prop :=
  ∀ (e : Expr) (rest : List Token), e.depth ≤ fuel → Stops rest →
    parseExpr fuel (e.tokens ++ rest) = some (e, rest)

def ReadsArgs (fuel : Nat) : Prop :=
  ∀ (args : Args) (c : Char) (rest : List Token), args.depth ≤ fuel → (c = ')' ∨ c = '}') →
    parseArgs fuel (.punct c) (args.tokens ++ .punct c :: rest) = some (args, rest)

def ReadsFields (fuel : Nat) : Prop :=
  ∀ (fields : Fields) (rest : List Token), fields.depth ≤ fuel →
    parseFields fuel (fields.tokens ++ .punct '}' :: rest) = some (fields, rest)

theorem head_ne_dot (hc : c ≠ '.') (rest : List Token) :
    (Token.punct c :: rest).head? ≠ some (.punct '.') := by
  rintro ⟨⟩
  exact hc rfl

variable {fuel : Nat}

theorem readsExpr_succ (ha : ReadsArgs fuel) (hf : ReadsFields fuel) : ReadsExpr (fuel + 1) := by
  intro e rest h hstop
  cases e with
  | int | str => rfl
  | name n =>
    match rest, hstop with
    | .punct c :: rest, hstop =>
      rw [Expr.tokens, parseExpr_name, parseName_tokens n (head_ne_dot hstop.1 rest)]
      show (match Token.punct c :: rest with
        | .punct '(' :: rest => _
        | .punct '{' :: rest => _
        | rest => some (Expr.name n, rest)) = some (Expr.name n, .punct c :: rest)
      split
      · rename_i heq
        cases heq
        exact absurd rfl hstop.2.1
      · rename_i heq
        cases heq
        exact absurd rfl hstop.2.2
      · rfl
  | call n args =>
    have hargs := ha args ')' rest (by simp only [Expr.depth] at h; omega) (.inl rfl)
    rw [Expr.tokens, append_assoc, cons_append, append_assoc, parseExpr_name,
      parseName_tokens n (head_ne_dot (by decide) _)]
    show (parseArgs fuel (.punct ')') (args.tokens ++ .punct ')' :: rest)).map _ = _
    rw [hargs]
    rfl
  | slice elem elems =>
    have helems := ha elems '}' rest (by simp only [Expr.depth] at h; omega) (.inr rfl)
    have htype : parseType (elem.tokens ++ .punct '{' :: (elems.tokens ++ [.punct '}'] ++ rest)) =
        some (elem, .punct '{' :: (elems.tokens ++ [.punct '}'] ++ rest)) :=
      parseType_tokens elem (head_ne_dot (by decide) _)
    rw [Expr.tokens]
    simp only [cons_append, append_assoc] at htype ⊢
    show (parseType _).bind _ = _
    rw [htype]
    show (parseArgs fuel (.punct '}') (elems.tokens ++ .punct '}' :: rest)).map _ = _
    rw [helems]
    rfl
  | struct n fields =>
    have hfields := hf fields rest (by simp only [Expr.depth] at h; omega)
    rw [Expr.tokens, append_assoc, cons_append, append_assoc, parseExpr_name,
      parseName_tokens n (head_ne_dot (by decide) _)]
    show (parseFields fuel (fields.tokens ++ .punct '}' :: rest)).map _ = _
    rw [hfields]
    rfl

theorem stops_close (hc : c = ',' ∨ c = ')' ∨ c = '}' ∨ c = ';') (rest : List Token) :
    Stops (.punct c :: rest) := by
  rcases hc with rfl | rfl | rfl | rfl <;> exact ⟨by decide, by decide, by decide⟩

theorem readsArgs_succ (he : ReadsExpr fuel) (ha : ReadsArgs fuel) : ReadsArgs (fuel + 1) := by
  intro args c rest h hc
  have hopen : c ≠ '[' := by rcases hc with rfl | rfl <;> decide
  cases args with
  | nil => simp [parseArgs, Args.tokens]
  | last e =>
    have hexpr := he e (.punct c :: rest) (by simp only [Args.depth] at h; omega)
      (stops_close (by tauto) rest)
    rw [Args.tokens, parseArgs, if_neg (e.head_tokens _ hopen), hexpr]
    show (match Token.punct c :: rest with
      | .punct ',' :: rest => _
      | rest => if rest.head? = some (Token.punct c) then some (Args.last e, rest.tail) else none) = _
    split
    · rename_i heq
      cases heq
      rcases hc with hc | hc <;> cases hc
    · exact if_pos rfl
  | cons e args =>
    have hexpr := he e (.punct ',' :: (args.tokens ++ .punct c :: rest))
      (by simp only [Args.depth] at h; omega) (stops_close (.inl rfl) _)
    have hargs := ha args c rest (by simp only [Args.depth] at h; omega) hc
    rw [Args.tokens, append_assoc, cons_append, parseArgs, if_neg (e.head_tokens _ hopen), hexpr]
    show (parseArgs fuel (.punct c) (args.tokens ++ .punct c :: rest)).map _ = _
    rw [hargs]
    rfl

theorem readsFields_succ (he : ReadsExpr fuel) (hf : ReadsFields fuel) : ReadsFields (fuel + 1) := by
  intro fields rest h
  cases fields with
  | nil => rfl
  | last key e =>
    have hexpr := he e (.punct '}' :: rest) (by simp only [Fields.depth] at h; omega)
      (stops_close (.inr (.inr (.inl rfl))) rest)
    show (parseExpr fuel (e.tokens ++ .punct '}' :: rest)).bind _ = _
    rw [hexpr]
    rfl
  | cons key e fields =>
    have hexpr := he e (.punct ',' :: (fields.tokens ++ .punct '}' :: rest))
      (by simp only [Fields.depth] at h; omega) (stops_close (.inl rfl) _)
    have hfields := hf fields rest (by simp only [Fields.depth] at h; omega)
    rw [Fields.tokens, cons_append, cons_append, append_assoc, cons_append]
    show (parseExpr fuel (e.tokens ++ .punct ',' :: (fields.tokens ++ .punct '}' :: rest))).bind _ = _
    rw [hexpr]
    show (parseFields fuel (fields.tokens ++ .punct '}' :: rest)).map _ = _
    rw [hfields]
    rfl

theorem reads_all (fuel : Nat) : ReadsExpr fuel ∧ ReadsArgs fuel ∧ ReadsFields fuel := by
  induction fuel with
  | zero =>
    refine ⟨?_, ?_, ?_⟩
    · intro e rest h
      cases e <;> simp [Expr.depth] at h
    · intro args c rest h
      cases args <;> simp [Args.depth] at h
    · intro fields rest h
      cases fields <;> simp [Fields.depth] at h
  | succ fuel ih =>
    obtain ⟨he, ha, hf⟩ := ih
    exact ⟨readsExpr_succ ha hf, readsArgs_succ he ha, readsFields_succ he hf⟩

theorem Expr.tokens_append_inj {e e' : Expr} (h : e.tokens ++ rest = e'.tokens ++ rest')
    (hrest : Stops rest) (hrest' : Stops rest') : e = e' ∧ rest = rest' := by
  have hread := (reads_all (max e.depth e'.depth)).1 e rest (Nat.le_max_left ..) hrest
  have hread' := (reads_all (max e.depth e'.depth)).1 e' rest' (Nat.le_max_right ..) hrest'
  rw [h, hread'] at hread
  cases hread
  exact ⟨rfl, rfl⟩

theorem flatMap_append_inj {α : Type} {f : α → List Token}
    (hf : ∀ {x x' r r'}, f x ++ r = f x' ++ r' → x = x' ∧ r = r') (hrest : ∀ x r, f x ++ r ≠ rest)
    (hrest' : ∀ x r, f x ++ r ≠ rest') {xs xs' : List α}
    (h : xs.flatMap f ++ rest = xs'.flatMap f ++ rest') : xs = xs' ∧ rest = rest' := by
  induction xs generalizing xs' with
  | nil =>
    cases xs' with
    | nil => exact ⟨rfl, h⟩
    | cons x' xs' =>
      rw [flatMap_cons, append_assoc] at h
      exact absurd h.symm (hrest x' _)
  | cons x xs ih =>
    cases xs' with
    | nil =>
      rw [flatMap_cons, append_assoc] at h
      exact absurd h (hrest' x _)
    | cons x' xs' =>
      simp only [flatMap_cons, append_assoc] at h
      obtain ⟨rfl, htail⟩ := hf h
      obtain ⟨rfl, hrest⟩ := ih htail
      exact ⟨rfl, hrest⟩

theorem stops_semicolon (rest : List Token) : Stops (.punct ';' :: rest) :=
    stops_close (.inr (.inr (.inr rfl))) rest

theorem Expr.tokens_ne_define (e : Expr) (rest rest' : List Token) (name : List Char) :
    e.tokens ++ .punct ';' :: rest ≠ .ident name :: .define :: rest' := by
  intro h
  have hdepth : ∃ fuel, e.depth = fuel + 1 := by
    cases e <;> exact ⟨_, rfl⟩
  obtain ⟨fuel, hfuel⟩ := hdepth
  have hread := (reads_all (fuel + 1)).1 e (.punct ';' :: rest) (Nat.le_of_eq hfuel) (stops_semicolon rest)
  rw [h] at hread
  cases hread

theorem Stmt.tokens_append_inj {s s' : Stmt} (h : s.tokens ++ rest = s'.tokens ++ rest') : s = s' ∧
      rest = rest' := by
  cases s with
  | expr e =>
    cases s' with
    | expr e' =>
      simp only [Stmt.tokens, append_assoc] at h
      obtain ⟨rfl, hrest⟩ := Expr.tokens_append_inj h (stops_semicolon rest) (stops_semicolon rest')
      exact ⟨rfl, (List.cons.inj hrest).2⟩
    | define name' e' =>
      rw [Stmt.tokens, Stmt.tokens, append_assoc] at h
      exact absurd h (e.tokens_ne_define _ _ _)
  | define name e =>
    cases s' with
    | expr e' =>
      rw [Stmt.tokens, Stmt.tokens, append_assoc] at h
      exact absurd h.symm (e'.tokens_ne_define _ _ _)
    | define name' e' =>
      simp only [Stmt.tokens, cons_append, append_assoc] at h
      injection h with hname htail
      injection htail with _ htail
      cases hname
      obtain ⟨rfl, hrest⟩ := Expr.tokens_append_inj htail (stops_semicolon rest) (stops_semicolon rest')
      exact ⟨rfl, (List.cons.inj hrest).2⟩

theorem Stmt.tokens_ne_close (s : Stmt) (more rest : List Token) : s.tokens ++ more ≠ .punct '}' :: rest := by
  intro h
  cases s with
  | expr e =>
    rw [Stmt.tokens, append_assoc] at h
    have hhead := e.head_tokens ([.punct ';'] ++ more) (c := '}') (by decide)
    rw [h] at hhead
    exact hhead rfl
  | define name e => cases h

theorem Func.tokens_append_inj {f f' : Func} (h : f.tokens ++ rest = f'.tokens ++ rest') : f = f' ∧
      rest = rest' := by
  obtain ⟨name, body⟩ := f
  obtain ⟨name', body'⟩ := f'
  simp only [Func.tokens, cons_append, append_assoc, nil_append, List.cons.injEq, true_and,
    Token.ident.injEq] at h
  obtain ⟨rfl, hbody⟩ := h
  obtain ⟨rfl, hrest⟩ := flatMap_append_inj Stmt.tokens_append_inj (fun s r => s.tokens_ne_close r _)
    (fun s r => s.tokens_ne_close r _) hbody
  simp only [List.cons.injEq, true_and] at hrest
  exact ⟨rfl, hrest⟩

theorem Import.tokens_append_inj {i i' : Import} (h : i.tokens ++ rest = i'.tokens ++ rest') :
    i = i' ∧ rest = rest' := by
  obtain ⟨name, path⟩ := i
  obtain ⟨name', path'⟩ := i'
  simp only [Import.tokens, cons_append, nil_append, List.cons.injEq, true_and, Token.ident.injEq,
    Token.str.injEq] at h
  obtain ⟨rfl, rfl, hrest⟩ := h
  exact ⟨rfl, hrest⟩

theorem Program.tokens_injective {p p' : Program} (h : p.tokens = p'.tokens) : p = p' := by
  obtain ⟨package, imports, funcs⟩ := p
  obtain ⟨package', imports', funcs'⟩ := p'
  simp only [Program.tokens, List.cons.injEq, true_and, Token.ident.injEq] at h
  obtain ⟨rfl, himports⟩ := h
  have hopen : ∀ (rest : List Token) (i : Import) (r : List Token), i.tokens ++ r ≠ .punct ')' :: rest := by
    rintro rest i r ⟨⟩
  obtain ⟨rfl, hfuncs⟩ := flatMap_append_inj Import.tokens_append_inj (hopen _) (hopen _) himports
  simp only [List.cons.injEq, true_and] at hfuncs
  have hsame : funcs.flatMap Func.tokens ++ [] = funcs'.flatMap Func.tokens ++ [] := by
    rw [append_nil, append_nil, hfuncs]
  have hend : ∀ (f : Func) (r : List Token), f.tokens ++ r ≠ [] := by
    rintro f r ⟨⟩
  obtain ⟨rfl, -⟩ := flatMap_append_inj Func.tokens_append_inj hend hend hsame
  rfl

/-! ## Values -/

/-- What an expression of literals stands for. -/
inductive Value where
  | num (n : Nat)
  | str (bytes : List UInt8)
  | slice (elem : Typ) (elems : List Value)
  | struct (type : Name) (fields : List (List Char × Value))

mutual
def Value.strings : Value → List (List UInt8)
  | .num _ => []
  | .str bytes => [bytes]
  | .slice _ elems => stringsOfElems elems
  | .struct _ fields => stringsOfFields fields
def stringsOfElems : List Value → List (List UInt8)
  | [] => []
  | v :: vs => v.strings ++ stringsOfElems vs
def stringsOfFields : List (List Char × Value) → List (List UInt8)
  | [] => []
  | (_, v) :: fields => v.strings ++ stringsOfFields fields
end

mutual
/-- The value of an expression of literals and of conversions of numbers to the types of which
    `conv` holds. -/
def Expr.denote (conv : Name → Bool) : Expr → Option Value
  | .int n => some (.num n)
  | .str bytes => some (.str bytes)
  | .call type (.last e) =>
    match conv type, e.denote conv with
    | true, some (.num n) => some (.num n)
    | _, _ => none
  | .slice elem elems => (elems.denote conv).map (.slice elem)
  | .struct type fields => (fields.denote conv).map (.struct type)
  | _ => none
def Args.denote (conv : Name → Bool) : Args → Option (List Value)
  | .nil => some []
  | .last e => (e.denote conv).map ([·])
  | .cons e rest => do
    let v ← e.denote conv
    let vs ← rest.denote conv
    return v :: vs
def Fields.denote (conv : Name → Bool) : Fields → Option (List (List Char × Value))
  | .nil => some []
  | .last key e => (e.denote conv).map fun v => [(key, v)]
  | .cons key e rest => do
    let v ← e.denote conv
    let fields ← rest.denote conv
    return (key, v) :: fields
end

theorem Name.strings_tokens (n : Name) : strings n.tokens = [] := by
  obtain ⟨package?, name⟩ := n
  cases package? <;> rfl

theorem Typ.strings_tokens (t : Typ) : strings t.tokens = [] := by
  induction t with
  | named n => exact n.strings_tokens
  | slice elem ih => exact ih

@[simp] theorem strings_cons_punct (c : Char) (ts : List Token) : strings (.punct c :: ts) = strings ts := rfl

@[simp] theorem strings_cons_ident (name : List Char) (ts : List Token) :
    strings (.ident name :: ts) = strings ts := rfl

variable {conv : Name → Bool}

mutual
theorem Expr.strings_of_denote {v : Value} : ∀ {e : Expr}, e.denote conv = some v →
      strings e.tokens = v.strings
  | .int n, h => by
    cases h
    rfl
  | .str bytes, h => by
    cases h
    rfl
  | .call type (.last e), h => by
    simp only [Expr.denote] at h
    split at h
    · rename_i n _ hdenote
      cases h
      have hstrings := Expr.strings_of_denote hdenote
      simp [Expr.tokens, Args.tokens, type.strings_tokens, hstrings, Value.strings]
    · cases h
  | .slice elem elems, h => by
    rw [Expr.denote, Option.map_eq_some_iff] at h
    obtain ⟨vs, hvs, rfl⟩ := h
    have hstrings := Args.strings_of_denote hvs
    simp [Expr.tokens, elem.strings_tokens, hstrings, Value.strings]
  | .struct type fields, h => by
    rw [Expr.denote, Option.map_eq_some_iff] at h
    obtain ⟨vs, hvs, rfl⟩ := h
    have hstrings := Fields.strings_of_denote hvs
    simp [Expr.tokens, type.strings_tokens, hstrings, Value.strings]
theorem Args.strings_of_denote {vs : List Value} :
    ∀ {args : Args}, args.denote conv = some vs → strings args.tokens = stringsOfElems vs
  | .nil, h => by
    cases h
    rfl
  | .last e, h => by
    rw [Args.denote, Option.map_eq_some_iff] at h
    obtain ⟨v, hv, rfl⟩ := h
    have hstrings := Expr.strings_of_denote hv
    simp [Args.tokens, hstrings, stringsOfElems]
  | .cons e args, h => by
    simp only [Args.denote, bind, Option.bind_eq_some_iff] at h
    obtain ⟨v, hv, vs', hvs, h⟩ := h
    cases h
    have hstrings := Expr.strings_of_denote hv
    have hrest := Args.strings_of_denote hvs
    simp [Args.tokens, hstrings, hrest, stringsOfElems]
theorem Fields.strings_of_denote {vs : List (List Char × Value)} :
    ∀ {fields : Fields}, fields.denote conv = some vs → strings fields.tokens = stringsOfFields vs
  | .nil, h => by
    cases h
    rfl
  | .last key e, h => by
    rw [Fields.denote, Option.map_eq_some_iff] at h
    obtain ⟨v, hv, rfl⟩ := h
    have hstrings := Expr.strings_of_denote hv
    simp [Fields.tokens, hstrings, stringsOfFields]
  | .cons key e fields, h => by
    simp only [Fields.denote, bind, Option.bind_eq_some_iff] at h
    obtain ⟨v, hv, vs', hvs, h⟩ := h
    cases h
    have hstrings := Expr.strings_of_denote hv
    have hrest := Fields.strings_of_denote hvs
    simp [Fields.tokens, hstrings, hrest, stringsOfFields]
end

end Lib.Go
