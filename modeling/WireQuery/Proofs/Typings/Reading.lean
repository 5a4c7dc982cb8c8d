import WireQuery.Proofs.TypeScript.Reader
import WireQuery.Typings.Declaration

/-!
# Written declarations are read back

What the types, members and declarations of a query mean as TypeScript, and the tokens they are
written with. Reading their text gives what they mean.
-/

namespace WireQuery.Typings
set_option autoImplicit false

open TypeScript (scanner isTypeName isIdentifier)

namespace Ty

/-- A type that is written without `|` at the top, with names that can be declared. -/
inductive Plain : Ty → Prop where
  | string : Plain .string
  | number : Plain .number
  | boolean : Plain .boolean
  | unknown : Plain .unknown
  | array {t : Ty} (h : Plain t) : Plain (.array t)
  | arrayOrNull {t : Ty} (h : Plain t) : Plain (.array (.orNull t))
  | nested {aliasName interface : String} (named : isTypeName aliasName = true)
      (declared : isTypeName interface = true) : Plain (.nested aliasName interface)

/-- A type of a member. -/
inductive Written : Ty → Prop where
  | plain {t : Ty} (h : Plain t) : Written t
  | orNull {t : Ty} (h : Plain t) : Written (.orNull t)

def denoted : Ty → TypeScript.Ty
  | string => .string
  | number => .number
  | boolean => .boolean
  | unknown => .unknown
  | array element => .array element.denoted
  | orNull ty => .union ty.denoted .null
  | nested aliasName interface => .applied aliasName (.reference interface)

def tokens : Ty → List TypeScript.Token
  | string => [.word "string"]
  | number => [.word "number"]
  | boolean => [.word "boolean"]
  | unknown => [.word "unknown"]
  | array (orNull ty) =>
    .mark '(' :: ty.tokens ++ [.mark '|', .word "null", .mark ')', .mark '[', .mark ']']
  | array element => element.tokens ++ [.mark '[', .mark ']']
  | orNull ty => ty.tokens ++ [.mark '|', .word "null"]
  | nested aliasName interface => [.word aliasName, .mark '<', .word interface, .mark '>']

theorem Plain.text_array {t : Ty} (h : Plain t) : (Ty.array t).text = t.text ++ "[]" := by
  cases h <;> rfl

theorem Plain.tokens_array {t : Ty} (h : Plain t) :
    (Ty.array t).tokens = t.tokens ++ [.mark '[', .mark ']'] := by
  cases h <;> rfl

theorem Plain.tokens_pos {t : Ty} (h : Plain t) : 0 < t.tokens.length := by
  cases h with
  | array h =>
    rw [h.tokens_array, List.length_append]
    exact Nat.succ_pos _
  | _ => exact Nat.succ_pos _

end Ty

def Member.denoted (member : Member) : TypeScript.Member :=
  ⟨member.key, member.optional, member.ty.denoted⟩

structure Member.Readable (member : Member) : Prop where
  key : isIdentifier member.key = true
  written : member.ty.Written

def Member.tokens (choices : Choices) (member : Member) : List TypeScript.Token :=
  (if choices.readOnly then [.word "readonly"] else []) ++ .word member.key ::
    ((if member.optional then [.mark '?'] else []) ++ .mark ':' :: member.ty.tokens ++ [.mark ';'])

namespace Declaration

def denoted : Declaration → TypeScript.Declaration
  | interface name members => .interface name (members.map Member.denoted)
  | nestedAlias name => .typeAlias name "T"
      (.union (.reference "T") (.union (.array (.applied name (.reference "T"))) .null))

@[simp] theorem name_denoted (declaration : Declaration) :
    declaration.denoted.name = declaration.name := by
  cases declaration <;> rfl

def Readable : Declaration → Prop
  | interface name members => isTypeName name = true ∧ ∀ member ∈ members, member.Readable
  | nestedAlias name => isTypeName name = true

def bareTokens (choices : Choices) : Declaration → List TypeScript.Token
  | interface name members => [.word "interface", .word name, .mark '\x7b'] ++
      members.flatMap (Member.tokens choices) ++ [.mark '\x7d']
  | nestedAlias name =>
    [.word "type", .word name, .mark '<', .word "T", .mark '>', .mark '=', .word "T", .mark '|',
      .word name, .mark '<', .word "T", .mark '>', .mark '[', .mark ']', .mark '|', .word "null",
      .mark ';']

def tokens (choices : Choices) (declaration : Declaration) : List TypeScript.Token :=
  (if choices.exported then [.word "export"] else []) ++ declaration.bareTokens choices

end Declaration

namespace Ty

theorem Plain.spells {t : Ty} (h : Plain t) : scanner.Spells t.text t.tokens := by
  induction h with
  | string => exact TypeScript.spells_identifier (by decide)
  | number => exact TypeScript.spells_identifier (by decide)
  | boolean => exact TypeScript.spells_identifier (by decide)
  | unknown => exact TypeScript.spells_identifier (by decide)
  | array h ih =>
    have hbrackets : scanner.Symbols "[]" [.mark '[', .mark ']'] := by decide
    rw [h.text_array, h.tokens_array]
    exact (ih.append_symbols hbrackets).spells
  | arrayOrNull h ih =>
    have hopen : scanner.Literal "(" [.mark '('] := by decide
    have hnull : scanner.Symbols " | null)[]"
        [.mark '|', .word "null", .mark ')', .mark '[', .mark ']'] := by decide
    exact ((hopen.closes.append_spells ih).append_symbols hnull).spells
  | nested named declared =>
    have hopen : scanner.Symbols "<" [.mark '<'] := by decide
    have hclose : scanner.Symbols ">" [.mark '>'] := by decide
    have hname := TypeScript.spells_identifier (TypeScript.isIdentifier_of_isTypeName named)
    have hinner := TypeScript.spells_identifier (TypeScript.isIdentifier_of_isTypeName declared)
    exact (((hname.append_symbols hopen).append_spells hinner).append_symbols hclose).spells

theorem Written.spells {t : Ty} (h : Written t) : scanner.Spells t.text t.tokens := by
  cases h with
  | plain h => exact h.spells
  | @orNull t h =>
    have hbar : scanner.Symbols " | " [.mark '|'] := by decide
    have hnull : scanner.Spells "null" [.word "null"] := TypeScript.spells_identifier (by decide)
    have hall := (h.spells.append_symbols hbar).append_spells hnull
    rw [String.append_assoc, List.append_assoc] at hall
    exact hall

end Ty

theorem Member.closes_line (choices : Choices) {member : Member} (h : member.Readable) :
    scanner.Closes (Declaration.memberLine choices member) (member.tokens choices) := by
  have hindent : scanner.Literal "  " [] := by decide
  have hmodifier : scanner.Closes (if choices.readOnly then "readonly " else "")
      (if choices.readOnly then [.word "readonly"] else []) := by
    split
    · exact Scanner.Literal.closes (by decide)
    · exact Scanner.closes_empty
  have hmark : scanner.Symbols ((if member.optional then "?" else "") ++ ": ")
      ((if member.optional then [.mark '?'] else []) ++ [.mark ':']) := by
    split
    · decide
    · decide
  have hend : scanner.Symbols ";\n" [.mark ';'] := by decide
  have hkey := (hindent.closes.append hmodifier).append_spells (TypeScript.spells_identifier h.key)
  have hall := ((hkey.append_symbols hmark).append_spells h.written.spells).append_symbols hend
  simp only [List.nil_append, List.append_assoc, ← String.append_assoc, List.cons_append] at hall
  simpa only [Declaration.memberLine, Member.tokens, List.append_assoc, List.cons_append] using hall

namespace Declaration

theorem closes_text (choices : Choices) {declaration : Declaration} (h : declaration.Readable) :
    scanner.Closes (declaration.text choices) (declaration.tokens choices) := by
  have hmodifier : scanner.Closes (if choices.exported then "export " else "")
      (if choices.exported then [.word "export"] else []) := by
    split
    · exact Scanner.Literal.closes (by decide)
    · exact Scanner.closes_empty
  cases declaration with
  | interface name members =>
    obtain ⟨hname, hmembers⟩ := h
    have hkeyword : scanner.Literal "interface " [.word "interface"] := by decide
    have hopen : scanner.Symbols " \x7b\n" [.mark '\x7b'] := by decide
    have hclose : scanner.Literal "\x7d\n" [.mark '\x7d'] := by decide
    have hlines := Scanner.closes_join fun member hmember =>
      Member.closes_line choices (hmembers member hmember)
    have hhead := hkeyword.closes.append_spells
      (TypeScript.spells_identifier (TypeScript.isIdentifier_of_isTypeName hname))
    exact hmodifier.append (((hhead.append_symbols hopen).append hlines).append hclose.closes)
  | nestedAlias name =>
    have hkeyword : scanner.Literal "type " [.word "type"] := by decide
    have hparameter : scanner.Symbols "<T> = T | "
        [.mark '<', .word "T", .mark '>', .mark '=', .word "T", .mark '|'] := by decide
    have hrest : scanner.Symbols "<T>[] | null;\n" [.mark '<', .word "T", .mark '>', .mark '[',
        .mark ']', .mark '|', .word "null", .mark ';'] := by decide
    have hname := TypeScript.spells_identifier (TypeScript.isIdentifier_of_isTypeName h)
    have hhead := (hkeyword.closes.append_spells hname).append_symbols hparameter
    exact hmodifier.append ((hhead.append_spells hname).append_symbols hrest)

theorem readAll_textOfAll (choices : Choices) {declarations : List Declaration}
    (h : ∀ declaration ∈ declarations, declaration.Readable) :
    scanner.readAll (textOfAll choices declarations) =
      some (declarations.flatMap (tokens choices)) := by
  apply Scanner.readAll_of_spells
  apply Scanner.Closes.spells
  apply Scanner.closes_intercalate
  · decide
  · intro declaration hdeclaration
    exact closes_text choices (h declaration hdeclaration)

end Declaration

open TypeScript (readPrimary readBrackets readOperand readType readStatement readSignature
  readMember readMembers readDeclared readDeclaration readDeclarations)

theorem readType_orNull {t : TypeScript.Ty} {ts rest : List TypeScript.Token} {c : Char}
    {steps : Nat} (hc : c = ')' ∨ c = ';')
    (hoperand : readOperand (readType (steps + 1)) ts =
      some (t, .mark '|' :: .word "null" :: .mark c :: rest)) :
    readType (steps + 2) ts = some (.union t .null, .mark c :: rest) := by
  rw [readType, hoperand]
  rcases hc with rfl | rfl <;> rfl

namespace Ty

theorem Plain.readOperand_tokens {t : Ty} (h : Plain t) {steps : Nat}
    (enough : t.tokens.length ≤ steps + 1) (rest : List TypeScript.Token) :
    readOperand (readType steps) (t.tokens ++ rest) = some (readBrackets t.denoted rest) := by
  induction h generalizing steps rest with
  | string => rfl
  | number => rfl
  | boolean => rfl
  | unknown => rfl
  | array h ih =>
    rw [h.tokens_array, List.length_append] at enough
    rw [h.tokens_array, List.append_assoc, ih (by omega)]
    rfl
  | @arrayOrNull t h ih =>
    have hlength : (Ty.array (.orNull t)).tokens.length = t.tokens.length + 6 := by
      simp [tokens]
    obtain ⟨steps, rfl⟩ : ∃ k, steps = k + 2 := ⟨steps - 2, by omega⟩
    have hinner : readType (steps + 2) (t.tokens ++ .mark '|' :: .word "null" :: .mark ')' ::
        .mark '[' :: .mark ']' :: rest) =
          some (.union t.denoted .null, .mark ')' :: .mark '[' :: .mark ']' :: rest) :=
      readType_orNull (Or.inl rfl) (ih (by omega) _)
    have htokens : (Ty.array (.orNull t)).tokens ++ rest = .mark '(' :: (t.tokens ++ .mark '|' ::
        .word "null" :: .mark ')' :: .mark '[' :: .mark ']' :: rest) := by
      simp [tokens]
    rw [htokens, readOperand, TypeScript.readPrimary_paren hinner]
    rfl
  | @nested aliasName interface named declared =>
    obtain ⟨steps, rfl⟩ : ∃ k, steps = k + 1 := ⟨steps - 1, by simp [tokens] at enough; omega⟩
    have hargument : readType (steps + 1) (.word interface :: .mark '>' :: rest) =
        some (.reference interface, .mark '>' :: rest) :=
      TypeScript.readType_reference declared (Or.inl rfl) steps rest
    change readOperand _ (.word aliasName :: .mark '<' :: .word interface :: .mark '>' :: rest) = _
    rw [readOperand, TypeScript.readPrimary_word named, TypeScript.readReference_applied hargument]
    rfl

theorem Written.readStatement_tokens {t : Ty} (h : Written t) {steps : Nat}
    (enough : t.tokens.length ≤ steps) (rest : List TypeScript.Token) :
    readStatement steps (t.tokens ++ .mark ';' :: rest) = some (t.denoted, rest) := by
  suffices readType steps (t.tokens ++ .mark ';' :: rest) = some (t.denoted, .mark ';' :: rest) by
    simp only [readStatement, this]
  cases h with
  | plain h =>
    have hpos := h.tokens_pos
    obtain ⟨steps, rfl⟩ : ∃ k, steps = k + 1 := ⟨steps - 1, by omega⟩
    rw [readType, h.readOperand_tokens enough]
    rfl
  | @orNull t h =>
    have hpos := h.tokens_pos
    have hlength : (Ty.orNull t).tokens.length = t.tokens.length + 2 := by simp [tokens]
    obtain ⟨steps, rfl⟩ : ∃ k, steps = k + 2 := ⟨steps - 2, by omega⟩
    have htokens : (Ty.orNull t).tokens ++ .mark ';' :: rest =
        t.tokens ++ .mark '|' :: .word "null" :: .mark ';' :: rest := by
      simp [tokens]
    rw [htokens]
    exact readType_orNull (Or.inr rfl) (h.readOperand_tokens (by omega) _)

end Ty

namespace Member

theorem readMember_mark (steps : Nat) {key : String} (h : isIdentifier key = true) (c : Char)
    (rest : List TypeScript.Token) : readMember steps (.word key :: .mark c :: rest) =
      readSignature steps key (.mark c :: rest) := by
  unfold readMember
  split
  · next heq => simp at heq
  · next heq =>
    cases heq
    rw [if_pos h]
  · next hother => exact absurd rfl (hother key _)

theorem readMember_tokens (choices : Choices) {member : Member} (h : member.Readable) {steps : Nat}
    (enough : (member.tokens choices).length ≤ steps) (rest : List TypeScript.Token) :
    readMember steps (member.tokens choices ++ rest) = some (member.denoted, rest) := by
  obtain ⟨key, ty, optional⟩ := member
  have hty : ty.tokens.length ≤ steps := by
    simp only [tokens, List.length_append, List.length_cons] at enough
    omega
  have hread := h.written.readStatement_tokens hty rest
  have hkey : isIdentifier key = true := h.key
  unfold tokens
  cases choices.readOnly with
  | true =>
    cases optional <;> simp [readMember, readSignature, hkey, hread, denoted]
  | false =>
    cases optional <;> simp [readMember_mark, readSignature, hkey, hread, denoted]

theorem exists_tokens_eq (choices : Choices) (member : Member) :
    ∃ text rest, member.tokens choices = .word text :: rest := by
  unfold tokens
  split
  · exact ⟨_, _, rfl⟩
  · exact ⟨_, _, rfl⟩

theorem readMembers_tokens (choices : Choices) {members : List Member}
    (h : ∀ member ∈ members, member.Readable) {steps : Nat}
    (enough : (members.flatMap (tokens choices)).length + 1 ≤ steps)
    (rest : List TypeScript.Token) :
    readMembers steps (members.flatMap (tokens choices) ++ .mark '\x7d' :: rest) =
      some (members.map denoted, rest) := by
  induction members generalizing steps with
  | nil =>
    obtain ⟨steps, rfl⟩ : ∃ k, steps = k + 1 := ⟨steps - 1, by omega⟩
    rfl
  | cons member members ih =>
    obtain ⟨hmember, hmembers⟩ := List.forall_mem_cons.mp h
    obtain ⟨text, tail, heq⟩ := exists_tokens_eq choices member
    rw [List.flatMap_cons, List.length_append] at enough
    have hfilled : 0 < (member.tokens choices).length := by
      rw [heq]
      exact Nat.succ_pos _
    obtain ⟨steps, rfl⟩ : ∃ k, steps = k + 1 := ⟨steps - 1, by omega⟩
    have hlength : (member.tokens choices).length ≤ steps := by omega
    have hfirst := readMember_tokens choices hmember hlength
      (members.flatMap (tokens choices) ++ .mark '\x7d' :: rest)
    have hothers := ih hmembers (by omega : _ ≤ steps)
    rw [List.flatMap_cons, List.append_assoc]
    rw [heq, List.cons_append] at hfirst ⊢
    simp only [readMembers, hfirst, hothers, Option.bind_eq_bind, Option.bind_some,
      Option.pure_def, List.map_cons]

end Member

namespace Declaration

theorem readDeclared_bareTokens (choices : Choices) {declaration : Declaration}
    (h : declaration.Readable) {steps : Nat}
    (enough : (declaration.bareTokens choices).length ≤ steps + 1)
    (rest : List TypeScript.Token) :
    readDeclared steps (declaration.bareTokens choices ++ rest) =
      some (declaration.denoted, rest) := by
  cases declaration with
  | interface name members =>
    obtain ⟨hname, hmembers⟩ := h
    have hlength : (members.flatMap (Member.tokens choices)).length + 1 ≤ steps := by
      simp only [bareTokens, List.length_append, List.length_cons] at enough
      omega
    have hread := Member.readMembers_tokens choices hmembers hlength rest
    simp [bareTokens, readDeclared, hname, hread, denoted]
  | nestedAlias name =>
    have hparameter : isTypeName "T" = true := by decide
    have hname : isTypeName name = true := h
    have hsteps : 17 ≤ steps + 1 := enough
    obtain ⟨steps, rfl⟩ : ∃ k, steps = k + 3 := ⟨steps - 3, by omega⟩
    have hinner : readType (steps + 1) (.word "T" :: .mark '>' :: .mark '[' :: .mark ']' ::
        .mark '|' :: .word "null" :: .mark ';' :: rest) = some (.reference "T", .mark '>' ::
          .mark '[' :: .mark ']' :: .mark '|' :: .word "null" :: .mark ';' :: rest) :=
      TypeScript.readType_reference hparameter (Or.inl rfl) steps _
    have hlist : readOperand (readType (steps + 1)) (.word name :: .mark '<' :: .word "T" ::
        .mark '>' :: .mark '[' :: .mark ']' :: .mark '|' :: .word "null" :: .mark ';' :: rest) =
          some (.array (.applied name (.reference "T")), .mark '|' :: .word "null" ::
            .mark ';' :: rest) := by
      rw [readOperand, TypeScript.readPrimary_word hname, TypeScript.readReference_applied hinner]
      rfl
    have hbody : readType (steps + 3) (.word "T" :: .mark '|' :: .word name :: .mark '<' ::
        .word "T" :: .mark '>' :: .mark '[' :: .mark ']' :: .mark '|' :: .word "null" ::
          .mark ';' :: rest) = some (.union (.reference "T")
            (.union (.array (.applied name (.reference "T"))) .null), .mark ';' :: rest) := by
      rw [readType, readOperand, TypeScript.readPrimary_word hparameter]
      change (readType (steps + 2) _ >>= _) = _
      rw [readType_orNull (Or.inr rfl) hlist]
      rfl
    simp [bareTokens, readDeclared, readStatement, hname, hparameter, hbody, denoted]

theorem readDeclaration_tokens (choices : Choices) {declaration : Declaration}
    (h : declaration.Readable) {steps : Nat}
    (enough : (declaration.tokens choices).length ≤ steps + 1) (rest : List TypeScript.Token) :
    readDeclaration steps (declaration.tokens choices ++ rest) =
      some (declaration.denoted, rest) := by
  rw [tokens, List.length_append] at enough
  have hread := readDeclared_bareTokens choices h (by omega : _ ≤ steps + 1) rest
  unfold tokens
  cases choices.exported with
  | true => exact hread
  | false =>
    rw [if_neg Bool.false_ne_true, List.nil_append, ← hread]
    cases declaration <;> rfl

theorem exists_tokens_eq (choices : Choices) (declaration : Declaration) :
    ∃ t rest, declaration.tokens choices = t :: rest := by
  unfold tokens
  cases choices.exported <;> cases declaration <;> exact ⟨_, _, rfl⟩

theorem readDeclarations_tokens (choices : Choices) {declarations : List Declaration}
    (h : ∀ declaration ∈ declarations, declaration.Readable) {steps : Nat}
    (enough : (declarations.flatMap (tokens choices)).length ≤ steps) :
    readDeclarations steps (declarations.flatMap (tokens choices)) =
      some (declarations.map denoted) := by
  induction declarations generalizing steps with
  | nil => cases steps <;> rfl
  | cons declaration declarations ih =>
    obtain ⟨hfirst, hothers⟩ := List.forall_mem_cons.mp h
    obtain ⟨t, tail, heq⟩ := exists_tokens_eq choices declaration
    rw [List.flatMap_cons, List.length_append] at enough
    have hfilled : 0 < (declaration.tokens choices).length := by
      rw [heq]
      exact Nat.succ_pos _
    obtain ⟨steps, rfl⟩ : ∃ k, steps = k + 1 := ⟨steps - 1, by omega⟩
    have hread := readDeclaration_tokens choices hfirst (by omega : _ ≤ steps + 1)
      (declarations.flatMap (tokens choices))
    have hrest := ih hothers (by omega : _ ≤ steps)
    rw [List.flatMap_cons]
    rw [heq, List.cons_append] at hread ⊢
    simp only [readDeclarations, hread, hrest, Option.bind_eq_bind, Option.bind_some,
      Option.pure_def, List.map_cons]

/-- The text of declarations reads as what they mean. -/
theorem read_textOfAll (choices : Choices) {declarations : List Declaration}
    (h : ∀ declaration ∈ declarations, declaration.Readable) :
    TypeScript.read (textOfAll choices declarations) = some (declarations.map denoted) := by
  rw [TypeScript.read, readAll_textOfAll choices h]
  exact readDeclarations_tokens choices h (Nat.le_refl _)

end Declaration

end WireQuery.Typings
