import Augment.Proofs.Source.Tokens
import Augment.Proofs.Tree.Nodes

/-!
# The tokens of printed trees

The grammar of source text: `CompilationUnit.tokens` lists the words and signs of a tree, in order
and without any layout.  What is printed reads like that under every layout
(`CompilationUnit.tokens_source`), if all names of the tree can be told from everything else that is
printed: a *plain* name (`Names.Plain`) is a single word and not a word of the language itself.
-/

namespace Augment

/-- The words for modifiers. -/
def modifierWords : List String :=
  ["public", "protected", "private", "static", "final"]

/-- The words that are printed on their own account. -/
def reservedWords : List String :=
  modifierWords ++ ["class", "interface", "enum", "void", "this", "return", "package"]

/-- Whether a text can be a name: it is a word, and not a reserved one. -/
def Text.isName (s : String) : Bool :=
  isWord s.toList && s ∉ reservedWords

namespace Names

/-- The symbol has a spelling, and that can be a name. -/
def Plain (names : Names) (s : Symbol) : Prop :=
  (names.resolve? s).any Text.isName

instance (names : Names) (s : Symbol) : Decidable (names.Plain s) :=
  inferInstanceAs (Decidable ((names.resolve? s).any Text.isName = true))

/-- The word for a symbol. -/
def word (names : Names) (s : Symbol) : Token :=
  .word (names.display s).toList

variable {names : Names} {s : Symbol}

theorem Plain.knows (h : names.Plain s) : names.Knows s := by
  unfold Plain at h
  rw [Knows]
  cases spelled : names.resolve? s with
  | none =>
    rw [spelled] at h
    cases h
  | some spelling => rfl

theorem Plain.isName (h : names.Plain s) : Text.isName (names.display s) := by
  have known := h.knows.resolve?
  rwa [Plain, known] at h

theorem Plain.isWord (h : names.Plain s) : Text.isWord (names.display s).toList :=
  (Bool.and_eq_true_iff.mp h.isName).1

theorem Plain.not_reserved (h : names.Plain s) : names.display s ∉ reservedWords := by
  have name := (Bool.and_eq_true_iff.mp h.isName).2
  exact of_decide_eq_true name

theorem Plain.tokens_display (h : names.Plain s) :
    Text.tokens (names.display s).toList = [names.word s] :=
  Text.tokens_word h.isWord

end Names

/-! ### The listing -/

/-- A word that is not the name of anything. -/
def Token.keyword (word : String) : Token :=
  .word word.toList

/-- What holds of all entries of some lists and of a separator holds of the lists put together. -/
theorem Text.forall_mem_intercalate {α : Type} {p : α → Prop} {sep : List α} {lists : List (List α)}
    (h : ∀ a ∈ sep, p a) (each : ∀ list ∈ lists, ∀ a ∈ list, p a) :
    ∀ a ∈ sep.intercalate lists, p a := by
  induction lists with
  | nil => simp
  | cons first rest ih =>
    rw [List.forall_mem_cons] at each
    cases rest with
    | nil => simpa using each.1
    | cons next others =>
      rw [List.intercalate_cons_cons, List.forall_mem_append, List.forall_mem_append]
      exact ⟨⟨each.1, h⟩, ih each.2⟩

/-- Parts with a sign between neighbours. -/
def separatedBy {α : Type} (c : Char) (listing : α → List Token) : List α → List Token
  | [] => []
  | item :: rest => listing item ++ rest.flatMap fun next => .sign c :: listing next

section Listing

variable (names : Names)

/-- The word for a type. -/
def TypeRef.token : TypeRef Symbol → Token
  | void => .keyword "void"
  | named name => names.word name

/-- The tokens of an expression. -/
def Expr.tokens : Expr Symbol → List Token
  | receiver => [.keyword "this"]
  | ident name => [names.word name]
  | select target name => target.tokens ++ [.sign '.', names.word name]
  | assign target value => target.tokens ++ .sign '=' :: value.tokens

/-- The tokens of a statement. -/
def Stmt.tokens : Stmt Symbol → List Token
  | ret value => .keyword "return" :: (value.tokens names ++ [.sign ';'])
  | exec effect => effect.tokens names ++ [.sign ';']

/-- The tokens of a body. -/
def Block.tokens (block : Block Symbol) : List Token :=
  .sign '\x7b' :: (block.stmts.flatMap (Stmt.tokens names) ++ [.sign '\x7d'])

/-- The tokens of a parameter. -/
def Param.tokens (param : Param Symbol) : List Token :=
  [param.type.token names, names.word param.name]

/-- The tokens of a marker. -/
def Marker.tokens : Marker → List Token
  | getter => [.sign '@', .keyword "Getter"]
  | setter => [.sign '@', .keyword "Setter"]
  | noArgsConstructor access =>
    [.sign '@', .keyword "NoArgsConstructor", .sign '(', .keyword "access", .sign '=',
      .keyword access.text, .sign ')']

/-- The tokens of modifiers. -/
def Modifiers.tokens (modifiers : Modifiers) : List Token :=
  modifiers.keywords.map .keyword

/-- What comes before the rest of a declaration. -/
def prologue (markers : List Marker) (modifiers : Modifiers) : List Token :=
  markers.flatMap Marker.tokens ++ modifiers.tokens

/-- The tokens of a field. -/
def FieldDecl.tokens (decl : FieldDecl Symbol) : List Token :=
  prologue decl.markers decl.modifiers ++
    [decl.type.token names, names.word decl.name, .sign ';']

/-- The result and the name of a method; a constructor has the name of its class. -/
def MethodDecl.subject (className : Symbol) (decl : MethodDecl Symbol) : List Token :=
  if decl.isConstructor then [names.word className]
  else [(decl.returnType.getD .void).token names, names.word decl.name]

/-- The tokens of a method in a class. -/
def MethodDecl.tokens (className : Symbol) (decl : MethodDecl Symbol) : List Token :=
  prologue decl.markers decl.modifiers ++
    (decl.subject names className ++
      .sign '(' ::
        (separatedBy ',' (Param.tokens names) decl.params ++ .sign ')' :: decl.body.tokens names))

mutual

/-- The tokens of a class. -/
def ClassDecl.tokens : ClassDecl Symbol → List Token
  | ⟨_, name, kind, modifiers, markers, members⟩ =>
    prologue markers modifiers ++
      (.keyword kind.keyword :: names.word name :: .sign '\x7b' ::
        (ClassDecl.membersTokens name members ++ [.sign '\x7d']))

/-- The tokens of members of a class. -/
def ClassDecl.membersTokens (className : Symbol) : List (Member Symbol) → List Token
  | [] => []
  | .field decl :: rest => decl.tokens names ++ ClassDecl.membersTokens className rest
  | .method decl :: rest => decl.tokens names className ++ ClassDecl.membersTokens className rest
  | .nested decl :: rest => decl.tokens ++ ClassDecl.membersTokens className rest

end

/-- The tokens of a member of a class. -/
def Member.tokens (className : Symbol) : Member Symbol → List Token
  | field decl => decl.tokens names
  | method decl => decl.tokens names className
  | nested decl => decl.tokens names

/-- The tokens of a package line. -/
def packageTokens : Option String → List Token
  | none => []
  | some name => .keyword "package" :: (Text.tokens name.toList ++ [.sign ';'])

/-- **The tokens of a unit.** -/
def CompilationUnit.tokens (unit : CompilationUnit Symbol) : List Token :=
  packageTokens unit.package ++ unit.types.flatMap (ClassDecl.tokens names)

theorem ClassDecl.membersTokens_eq (className : Symbol) (members : List (Member Symbol)) :
    ClassDecl.membersTokens names className members =
      members.flatMap (Member.tokens names className) := by
  induction members with
  | nil => rfl
  | cons member rest ih =>
    cases member <;> rw [membersTokens, ih] <;> rfl

theorem ClassDecl.tokens_eq (decl : ClassDecl Symbol) :
    decl.tokens names = prologue decl.markers decl.modifiers ++
      (.keyword decl.kind.keyword :: names.word decl.name :: .sign '\x7b' ::
        (decl.members.flatMap (Member.tokens names decl.name) ++ [.sign '\x7d'])) := by
  cases decl
  rw [tokens, membersTokens_eq]

end Listing

/-! ### Lines -/

/-- Keywords read as themselves. -/
theorem Text.tokens_keyword {word : String} (h : word ∈ reservedWords) :
    Text.tokens word.toList = [.keyword word] := by
  have words : reservedWords.all fun word => Text.isWord word.toList := by decide +kernel
  exact Text.tokens_word (List.all_eq_true.mp words word h)

variable {names : Names}

theorem TypeRef.tokens_text {type : TypeRef Symbol} (plain : ∀ n ∈ type.names, names.Plain n) :
    Text.tokens (type.map names.display).text.toList = [type.token names] := by
  cases type with
  | void =>
    have reserved : "void" ∈ reservedWords := by decide
    exact Text.tokens_keyword reserved
  | named name => exact (plain name (List.mem_singleton_self name)).tokens_display

theorem Expr.tokens_text {expr : Expr Symbol} (plain : ∀ n ∈ expr.names, names.Plain n) :
    Text.tokens (expr.map names.display).text.toList = expr.tokens names := by
  induction expr with
  | receiver =>
    have reserved : "this" ∈ reservedWords := by decide
    exact Text.tokens_keyword reserved
  | ident name => exact (plain name (List.mem_singleton_self name)).tokens_display
  | select target name ih =>
    rw [Expr.names, List.forall_mem_append, List.forall_mem_singleton] at plain
    have dot : ".".toList = ['.'] := rfl
    rw [map, text, String.toList_append, String.toList_append, dot, List.append_assoc,
      List.singleton_append, Text.tokens_append_sign (by decide), ih plain.1,
      plain.2.tokens_display]
    rfl
  | assign target value ihTarget ihValue =>
    rw [Expr.names, List.forall_mem_append] at plain
    have equals : " = ".toList = [' ', '=', ' '] := rfl
    rw [map, text, String.toList_append, String.toList_append, equals, List.append_assoc,
      List.cons_append, Text.tokens_append_blank Text.isBlank_space, List.cons_append,
      Text.tokens_cons_of_sign (by decide), List.cons_append, List.nil_append,
      Text.tokens_cons_of_blank Text.isBlank_space, ihTarget plain.1, ihValue plain.2]
    rfl

theorem Stmt.reads {stmt : Stmt Symbol} (plain : ∀ n ∈ stmt.names, names.Plain n) :
    (Document.text (stmt.map names.display).text).Reads (stmt.tokens names) := by
  cases stmt with
  | ret value =>
    have start : "return ".toList = "return".toList ++ [' '] := rfl
    have ends : (Stmt.map names.display (.ret value)).text.toList =
        "return".toList ++ ' ' :: (value.map names.display).text.toList ++ [';'] := by
      rw [map, text, String.toList_append, String.toList_append, start, List.append_assoc]
      rfl
    have read := Document.reads_text_of_sign (by decide) ends
    have reserved : "return" ∈ reservedWords := by decide
    rw [Text.tokens_append_blank Text.isBlank_space, Text.tokens_keyword reserved,
      Expr.tokens_text plain] at read
    exact read
  | exec effect =>
    have ends : (Stmt.map names.display (.exec effect)).text.toList =
        (effect.map names.display).text.toList ++ [';'] := by
      rw [map, text, String.toList_append]
      rfl
    have read := Document.reads_text_of_sign (by decide) ends
    rw [Expr.tokens_text plain] at read
    exact read

theorem Param.tokens_text {param : Param Symbol} (plain : ∀ n ∈ param.names, names.Plain n) :
    Text.tokens (param.map names.display).text.toList = param.tokens names := by
  rw [Param.names, List.forall_mem_cons] at plain
  have space : " ".toList = [' '] := rfl
  rw [map, text, String.toList_append, String.toList_append, space, List.append_assoc,
    List.singleton_append, Text.tokens_append_blank Text.isBlank_space, TypeRef.tokens_text plain.2,
    plain.1.tokens_display]
  rfl

theorem Param.tokens_intercalate {params : List (Param Symbol)}
    (plain : ∀ n ∈ params.flatMap Param.names, names.Plain n) :
    Text.tokens (", ".intercalate
      ((params.map (Param.map names.display)).map Param.text)).toList =
        separatedBy ',' (Param.tokens names) params := by
  have comma : ", ".toList = [',', ' '] := rfl
  induction params with
  | nil => rfl
  | cons param rest ih =>
    rw [List.flatMap_cons, List.forall_mem_append] at plain
    have first := Param.tokens_text plain.1
    cases rest with
    | nil =>
      rw [separatedBy, List.flatMap_nil, List.append_nil, ← first]
      simp
    | cons next others =>
      have later := ih plain.2
      simp only [List.map_cons] at later ⊢
      rw [String.intercalate_cons_cons, String.toList_append, String.toList_append, comma,
        List.append_assoc, List.cons_append, Text.tokens_append_sign (by decide), List.cons_append,
        List.nil_append, Text.tokens_cons_of_blank Text.isBlank_space, first, later]
      simp [separatedBy]

theorem Marker.tokens_text (marker : Marker) :
    Text.tokens marker.text.toList = marker.tokens := by
  cases marker with
  | getter => decide +kernel
  | setter => decide +kernel
  | noArgsConstructor access => cases access <;> decide +kernel

theorem Modifiers.keywords_subset (modifiers : Modifiers) : modifiers.keywords ⊆ modifierWords := by
  have each : ∀ (access : Option AccessLevel) (static final : Bool),
      ((access.map AccessLevel.keyword).filter (· ≠ "")).toList ++
        (if static then ["static"] else []) ++ (if final then ["final"] else []) ⊆
          modifierWords := by
    intro access static final
    cases access with
    | none => cases static <;> cases final <;> decide +kernel
    | some level => cases level <;> cases static <;> cases final <;> decide +kernel
  exact each modifiers.access modifiers.isStatic modifiers.isFinal

/-- Keywords stand in front of what they modify, and each is followed by a space. -/
theorem Modifiers.tokens_text_append (modifiers : Modifiers) (rest : List Char) :
    Text.tokens (modifiers.text.toList ++ rest) = modifiers.tokens ++ Text.tokens rest := by
  have reserved : ∀ keyword ∈ modifiers.keywords, keyword ∈ reservedWords := fun _ hk =>
    List.mem_append_left _ (modifiers.keywords_subset hk)
  have each : ∀ keywords : List String, (∀ keyword ∈ keywords, keyword ∈ reservedWords) →
      Text.tokens ((String.join (keywords.map (· ++ " "))).toList ++ rest) =
        keywords.map .keyword ++ Text.tokens rest := by
    intro keywords
    induction keywords with
    | nil => exact fun _ => rfl
    | cons keyword later ih =>
      intro h
      rw [List.forall_mem_cons] at h
      have space : " ".toList = [' '] := rfl
      rw [List.map_cons, String.join_cons, String.toList_append, String.toList_append, space,
        List.append_assoc, List.append_assoc, List.singleton_append,
        Text.tokens_append_blank Text.isBlank_space, ih h.2, Text.tokens_keyword h.1]
      rfl
  exact each modifiers.keywords reserved

theorem Layout.reads_markers (markers : List Marker) :
    (Layout.markers markers).Reads (markers.flatMap Marker.tokens) := by
  refine Document.reads_concat fun marker _ => ?_
  have read := Document.reads_newline.text_append Document.clear_newline marker.text
  rw [marker.tokens_text, List.append_nil] at read
  exact read

/-! ### Declarations -/

theorem MethodDecl.plain_returned {decl : MethodDecl Symbol}
    (plain : ∀ n ∈ decl.names, names.Plain n) :
    ∀ n ∈ (decl.returnType.getD .void).names, names.Plain n := by
  intro n hn
  cases returned : decl.returnType with
  | none =>
    rw [returned] at hn
    cases hn
  | some type =>
    rw [returned] at hn
    exact plain n (by simp [MethodDecl.names, returned, show n ∈ type.names from hn])

namespace Layout

theorem reads_block (layout : Layout) {block : Block Symbol}
    (plain : ∀ n ∈ block.names, names.Plain n) :
    (layout.block (block.map names.display)).Reads (block.tokens names) := by
  rw [Block.names, List.forall_mem_flatMap] at plain
  have items : layout.block (block.map names.display) = layout.braces (block.stmts.map
      fun stmt => .text (stmt.map names.display).text) := by
    rw [Layout.block, Block.map, List.map_map]
    rfl
  rw [items]
  exact layout.reads_braces fun stmt hs => stmt.reads (plain stmt hs)

theorem reads_field {decl : FieldDecl Symbol} (plain : ∀ n ∈ decl.names, names.Plain n) :
    (Layout.field (decl.map names.display)).Reads (decl.tokens names) := by
  rw [FieldDecl.names, List.forall_mem_cons] at plain
  have space : " ".toList = [' '] := rfl
  have ends : (decl.map names.display).header.toList =
      (decl.modifiers.text.toList ++ ((decl.type.map names.display).text.toList ++
        ' ' :: (names.display decl.name).toList)) ++ [';'] := by
    simp only [FieldDecl.header, FieldDecl.map, String.toList_append, space, List.append_assoc]
    rfl
  have line := Document.reads_text_of_sign (by decide) ends
  rw [decl.modifiers.tokens_text_append, Text.tokens_append_blank Text.isBlank_space,
    TypeRef.tokens_text plain.2, plain.1.tokens_display] at line
  have read := (reads_markers decl.markers).append line
  rw [FieldDecl.tokens, prologue]
  simp only [List.append_assoc] at read ⊢
  exact read

/-- The result and the name of a method. -/
theorem tokens_subject {className : Symbol} {decl : MethodDecl Symbol}
    (plain : ∀ n ∈ decl.names, names.Plain n) (plainClass : names.Plain className) :
    Text.tokens (if (decl.map names.display).isConstructor then names.display className
      else ((decl.map names.display).returnType.getD .void).text ++ " " ++
        (decl.map names.display).name).toList = decl.subject names className := by
  have name : names.Plain decl.name := plain _ List.mem_cons_self
  have space : " ".toList = [' '] := rfl
  have result : (decl.map names.display).returnType.getD .void =
      (decl.returnType.getD .void).map names.display := by
    rw [MethodDecl.map]
    cases decl.returnType <;> rfl
  rw [decl.isConstructor_map name.knows, MethodDecl.subject]
  split
  · exact plainClass.tokens_display
  · rw [result, String.toList_append, String.toList_append, space, List.append_assoc,
      List.singleton_append, Text.tokens_append_blank Text.isBlank_space,
      TypeRef.tokens_text (MethodDecl.plain_returned plain)]
    exact congrArg _ name.tokens_display

/-- The line of a method, without its markers. -/
theorem reads_methodLine (modifiers : Modifiers) {subject params : String}
    {subjectTokens paramTokens : List Token} (hs : Text.tokens subject.toList = subjectTokens)
    (hp : Text.tokens params.toList = paramTokens) :
    (Document.text (modifiers.text ++ subject ++ "(" ++ params ++ ")")).Reads
      (modifiers.tokens ++ (subjectTokens ++ .sign '(' :: (paramTokens ++ [.sign ')']))) := by
  have paren : "(".toList = ['('] := rfl
  have close : ")".toList = [')'] := rfl
  have ends : (modifiers.text ++ subject ++ "(" ++ params ++ ")").toList =
      (modifiers.text.toList ++ (subject.toList ++ '(' :: params.toList)) ++ [')'] := by
    simp only [String.toList_append, paren, close, List.append_assoc, List.cons_append,
      List.nil_append]
  have line := Document.reads_text_of_sign (by decide) ends
  rw [modifiers.tokens_text_append, Text.tokens_append_sign (by decide), hs, hp] at line
  simp only [List.append_assoc, List.cons_append] at line
  exact line

theorem reads_method (layout : Layout) {className : Symbol} {decl : MethodDecl Symbol}
    (plain : ∀ n ∈ decl.names, names.Plain n) (plainClass : names.Plain className) :
    (layout.method (names.display className) (decl.map names.display)).Reads
      (decl.tokens names className) := by
  have subject := tokens_subject plain plainClass
  simp only [MethodDecl.names, List.forall_mem_cons, List.forall_mem_append] at plain
  obtain ⟨-, ⟨-, params⟩, body⟩ := plain
  have line := reads_methodLine decl.modifiers subject (Param.tokens_intercalate params)
  have read := ((reads_markers decl.markers).append line).append (layout.reads_block body)
  rw [MethodDecl.tokens, prologue]
  simp only [List.append_assoc, List.cons_append, List.nil_append] at read ⊢
  exact read

/-- The line of a class, without its markers. -/
theorem tokens_header (decl : ClassDecl Symbol) (name : names.Plain decl.name) :
    Text.tokens (decl.map names.display).header.toList =
      decl.modifiers.tokens ++ [.keyword decl.kind.keyword, names.word decl.name] := by
  have space : " ".toList = [' '] := rfl
  have keyword : decl.kind.keyword ∈ reservedWords := by
    cases decl.kind <;> decide
  rw [ClassDecl.map_eq, ClassDecl.header, String.toList_append, String.toList_append,
    String.toList_append, List.append_assoc, List.append_assoc,
    decl.modifiers.tokens_text_append, space, List.singleton_append,
    Text.tokens_append_blank Text.isBlank_space, Text.tokens_keyword keyword,
    name.tokens_display]
  rfl

/-- **A class reads like its listing,** at any depth. -/
theorem reads_type (layout : Layout) (decl : ClassDecl Symbol)
    (plain : ∀ node ∈ decl.nodes, ∀ n ∈ node.names, names.Plain n) :
    (layout.type (decl.map names.display)).Reads (decl.tokens names) := by
  induction decl using ClassDecl.induction with
  | step decl ih =>
    rw [ClassDecl.nodes_eq, List.forall_mem_cons, List.forall_mem_flatMap] at plain
    have name : names.Plain decl.name := plain.1 _ List.mem_cons_self
    have members : ∀ member ∈ decl.members,
        (layout.member (names.display decl.name) (member.map names.display)).Reads
          (member.tokens names decl.name) := by
      intro member hm
      have here := plain.2 member hm
      cases member with
      | field field => exact reads_field (here _ (List.mem_singleton_self _))
      | method method => exact layout.reads_method (here _ (List.mem_singleton_self _)) name
      | nested inner => exact ih inner hm here
    have body := layout.reads_braces members
    -- the name of the class ends where the braces begin
    have read := (reads_markers decl.markers).append
      (body.text_append (layout.clear_braces _) (decl.map names.display).header)
    have items : (decl.map names.display).members.map
        (layout.member (decl.map names.display).name) =
          decl.members.map fun member =>
            layout.member (names.display decl.name) (member.map names.display) := by
      rw [ClassDecl.map_eq, List.map_map]
      rfl
    have marks : (decl.map names.display).markers = decl.markers := by rw [ClassDecl.map_eq]
    rw [tokens_header decl name] at read
    rw [type_eq, items, marks, ClassDecl.tokens_eq, prologue]
    simp only [List.append_assoc, List.cons_append, List.nil_append] at read ⊢
    exact read.assoc

/-- **A unit reads like its listing.** -/
theorem reads_unit (layout : Layout) (unit : CompilationUnit Symbol)
    (plain : ∀ node ∈ unit.nodes, ∀ n ∈ node.names, names.Plain n) :
    (layout.unit (unit.map names.display)).Reads (unit.tokens names) := by
  rw [CompilationUnit.nodes_eq, List.forall_mem_flatMap] at plain
  have blankLine : (Document.newline ++ Document.newline).Reads [] :=
    Document.reads_newline.append Document.reads_newline
  have types := Document.reads_separated blankLine fun decl hd =>
    layout.reads_type decl (plain decl hd)
  have items : (unit.map names.display).types.map layout.type =
      unit.types.map fun decl => layout.type (decl.map names.display) := by
    rw [CompilationUnit.map, List.map_map]
    rfl
  rw [Layout.unit, items]
  refine Document.Reads.append ?_ types
  have same : (unit.map names.display).package = unit.package := rfl
  rw [same]
  cases unit.package with
  | none => exact Document.reads_empty
  | some name =>
    have reserved : "package" ∈ reservedWords := by decide
    have start : "package ".toList = "package".toList ++ [' '] := rfl
    have ends : ("package " ++ name ++ ";").toList =
        ("package".toList ++ ' ' :: name.toList) ++ [';'] := by
      rw [String.toList_append, String.toList_append, start, List.append_assoc]
      rfl
    have line := Document.reads_text_of_sign (by decide) ends
    rw [Text.tokens_append_blank Text.isBlank_space, Text.tokens_keyword reserved] at line
    have read := (line.append Document.reads_newline).append Document.reads_newline
    rw [List.append_nil, List.append_nil] at read
    exact read

end Layout

/-- **Source text reads like its listing,** under every layout. -/
theorem CompilationUnit.tokens_source (layout : Layout) (unit : CompilationUnit Symbol)
    (plain : ∀ node ∈ unit.nodes, ∀ n ∈ node.names, names.Plain n) :
    Text.tokens (unit.source layout names).toList = unit.tokens names :=
  (layout.reads_unit unit plain).tokens_render

end Augment
