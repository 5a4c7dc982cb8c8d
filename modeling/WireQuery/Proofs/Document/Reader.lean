import WireQuery.Proofs.Document.Grammar

/-!
# Reading documents

A reader for the grammar of documents. It looks at most two tokens ahead. Selections that are
still open are kept with what is selected before them, so the reader needs no recursion into the
tree.
-/

namespace WireQuery
set_option autoImplicit false

/-- Reads an item off the front of a list of tokens. -/
structure TokenReader (α : Type) where
  read : List Token → Option (α × List Token)
  consumes : ∀ {tokens a rest}, read tokens = some (a, rest) → rest.length < tokens.length

namespace TokenReader

variable {α : Type}

/-- Reads items up to a closing parenthesis. -/
def itemsOf (item : TokenReader α) (tokens : List Token) : Option (List α × List Token) :=
  if tokens.head? = some (.mark .closeParen) then some ([], tokens.tail)
  else
    match _h : item.read tokens with
    | none => none
    | some (a, rest) => do
      let (items, rest) ← itemsOf item rest
      return (a :: items, rest)
termination_by tokens.length
decreasing_by exact item.consumes _h

/-- Reads a list in parentheses, which may be left out. -/
def parenthesized (item : TokenReader α) : List Token → Option (List α × List Token)
  | .mark .openParen :: rest => do
    let (items, rest) ← item.itemsOf rest
    if items.isEmpty then none else return (items, rest)
  | tokens => some ([], tokens)

theorem length_of_itemsOf {item : TokenReader α} {tokens rest : List Token} {items : List α}
    (h : item.itemsOf tokens = some (items, rest)) : rest.length ≤ tokens.length := by
  fun_induction itemsOf item tokens generalizing items with
  | case1 tokens hclose =>
    cases h
    simp
  | case2 tokens hclose hnone => cases h
  | case3 tokens hclose a rest' hread ih =>
    obtain ⟨⟨items', rest''⟩, hitems, heq⟩ := Option.bind_eq_some_iff.mp h
    cases heq
    have hconsumes := item.consumes hread
    have hle := ih hitems
    omega

theorem length_of_parenthesized {item : TokenReader α} {tokens rest : List Token} {items : List α}
    (h : item.parenthesized tokens = some (items, rest)) : rest.length ≤ tokens.length := by
  unfold parenthesized at h
  split at h
  · obtain ⟨⟨items', rest'⟩, hitems, h⟩ := Option.bind_eq_some_iff.mp h
    dsimp only at h
    split at h
    · cases h
    · cases h
      have hle := length_of_itemsOf hitems
      rw [List.length_cons]
      omega
  · cases h
    exact Nat.le_refl _

end TokenReader

namespace WireType

/-- Takes the final `!` of a type, if there is one. -/
def readBang (t : WireType) : List Token → WireType × List Token
  | .mark .bang :: rest => (nonNull t, rest)
  | tokens => (t, tokens)

def readTokens : List Token → Option (WireType × List Token)
  | .name name :: rest => some (readBang (named name) rest)
  | .mark .openBracket :: rest =>
    match readTokens rest with
    | some (element, .mark .closeBracket :: rest) => some (readBang (list element) rest)
    | _ => none
  | _ => none

theorem length_of_readBang {t t' : WireType} {tokens rest : List Token}
    (h : readBang t tokens = (t', rest)) : rest.length ≤ tokens.length := by
  unfold readBang at h
  split at h
  · cases h
    simp
  · cases h
    exact Nat.le_refl _

theorem length_of_readTokens {tokens rest : List Token} {t : WireType}
    (h : readTokens tokens = some (t, rest)) : rest.length < tokens.length := by
  fun_induction readTokens tokens generalizing t rest with
  | case1 name rest' =>
    have hle := length_of_readBang (Option.some.inj h)
    rw [List.length_cons]
    omega
  | case2 rest' element rest'' hread ih =>
    have hlt := ih hread
    have hle := length_of_readBang (Option.some.inj h)
    simp only [List.length_cons] at hlt ⊢
    omega
  | case3 => cases h
  | case4 => cases h

end WireType

def VariableDefinition.reader : TokenReader VariableDefinition where
  read
    | .mark .dollar :: .name name :: .mark .colon :: rest => do
      let (type, rest) ← WireType.readTokens rest
      return (⟨name, type⟩, rest)
    | _ => none
  consumes := by
    intro tokens d rest h
    split at h
    · obtain ⟨⟨type, rest'⟩, hread, heq⟩ := Option.bind_eq_some_iff.mp h
      cases heq
      have hlt := WireType.length_of_readTokens hread
      simp only [List.length_cons]
      omega
    · cases h

def Argument.reader : TokenReader Argument where
  read
    | .name name :: .mark .colon :: .mark .dollar :: .name variableName :: rest =>
      some (⟨name, variableName⟩, rest)
    | _ => none
  consumes := by
    intro tokens a rest h
    split at h
    · cases h
      simp only [List.length_cons]
      omega
    · cases h

namespace Field

/-- Reads the arguments of a field. -/
def readArguments (aliasName : Option String) (name : String) (tokens : List Token) :
    Option (Field × List Token) := do
  let (arguments, rest) ← Argument.reader.parenthesized tokens
  return (⟨name, aliasName, arguments⟩, rest)

def readTokens : List Token → Option (Field × List Token)
  | .name aliasName :: .mark .colon :: .name name :: rest =>
    readArguments (some aliasName) name rest
  | .name name :: rest => readArguments none name rest
  | _ => none

theorem readArguments_eq_some {aliasName : Option String} {name : String}
    {tokens rest : List Token} {field : Field} :
    readArguments aliasName name tokens = some (field, rest) ↔
      ∃ arguments, Argument.reader.parenthesized tokens = some (arguments, rest) ∧
        field = ⟨name, aliasName, arguments⟩ := by
  unfold readArguments
  constructor
  · intro h
    obtain ⟨⟨arguments, rest'⟩, hread, heq⟩ := Option.bind_eq_some_iff.mp h
    cases heq
    exact ⟨arguments, hread, rfl⟩
  · rintro ⟨arguments, hread, rfl⟩
    rw [hread]
    rfl

theorem length_of_readTokens {tokens rest : List Token} {field : Field}
    (h : readTokens tokens = some (field, rest)) : rest.length < tokens.length := by
  unfold readTokens at h
  split at h
  · obtain ⟨arguments, hread, -⟩ := readArguments_eq_some.mp h
    have hle := TokenReader.length_of_parenthesized hread
    simp only [List.length_cons]
    omega
  · obtain ⟨arguments, hread, -⟩ := readArguments_eq_some.mp h
    have hle := TokenReader.length_of_parenthesized hread
    simp only [List.length_cons]
    omega
  · cases h

end Field

namespace Selection

/-- Reads selections up to the closing brace. `opened` holds the fields whose selections are being
read, innermost first, each with what is selected before it; `done` is selected at this level. -/
def readTokens (opened : List (Field × List Selection)) (done : List Selection)
    (tokens : List Token) : Option (List Selection × List Token) :=
  match tokens with
  | [] => none
  | .mark .closeBrace :: rest =>
    if done.isEmpty then none
    else
      match opened with
      | [] => some (done, rest)
      | (field, before) :: outer => readTokens outer (before ++ [nested field done]) rest
  | t :: ts =>
    match _hf : Field.readTokens (t :: ts) with
    | none => none
    | some (field, .mark .openBrace :: rest) => readTokens ((field, done) :: opened) [] rest
    | some (field, rest) => readTokens opened (done ++ [leaf field]) rest
termination_by tokens.length
decreasing_by
  · simp
  · have hlt := Field.length_of_readTokens _hf
    simp only [List.length_cons] at hlt ⊢
    omega
  · exact Field.length_of_readTokens _hf

end Selection

namespace Document

/-- Reads the name of an operation, which may be left out. -/
def readOperation : List Token → Option String × List Token
  | .name name :: rest => (some name, rest)
  | tokens => (none, tokens)

/-- Reads everything after the operation's name. -/
def readBody (operationName : Option String) (tokens : List Token) : Option Document := do
  let (definitions, rest) ← VariableDefinition.reader.parenthesized tokens
  match rest with
  | .mark .openBrace :: rest =>
    match Selection.readTokens [] [] rest with
    | some (selections, []) => return ⟨operationName, definitions, selections⟩
    | _ => none
  | _ => none

def ofTokens? : List Token → Option Document
  | .name "query" :: rest => readBody (readOperation rest).1 (readOperation rest).2
  | _ => none

/-- The document that a text spells. -/
def read (text : String) : Option Document := Token.scanner.readAll text >>= ofTokens?

end Document

end WireQuery
